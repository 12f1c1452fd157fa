import FlowAtlas.Json.Basic
import FlowAtlas.Json.Complaint
import FlowAtlas.Text.Digits

/-!
# JSON numerals

A numeral keeps its digits until its value is asked for, because a number that
is only passed over may be larger than any number that can be held.

A whole number that fits a 64-bit word is exact. Any other value is computed in
double words: the digits that fit an unsigned word, times or divided by a power
of ten. That is not always the double word nearest to the decimal.
-/

namespace FlowAtlas.Json

open Decimal (Double)

/-- A number as written. -/
structure Numeral where
  negative : Bool
  whole : List Char
  /-- The digits after the point; empty when there is no point. -/
  fraction : List Char
  /-- Whether the exponent is negative, and its digits. -/
  exponent : Option (Bool × List Char)
  deriving DecidableEq, Repr

namespace Numeral

/-- The value of a digit. -/
def digit (c : Char) : Nat := c.toNat - '0'.toNat

/-- The value of a row of digits. -/
def digitsValue (cs : List Char) : Nat :=
  cs.foldl (fun n c => 10 * n + digit c) 0

/-- The stop at a place where a digit has to stand. -/
def noDigit (rest : List Char) : Stop :=
  .next (if rest.isEmpty then .endInValue else .invalidNumber)
    .invalidNumber rest

/-- Reads the exponent, if there is one. -/
def readExponent (n : Numeral) : List Char → Except Stop (Numeral × List Char)
  | 'e' :: cs | 'E' :: cs =>
    let (negative, cs) := match cs with
      | '+' :: cs => (false, cs)
      | '-' :: cs => (true, cs)
      | cs => (false, cs)
    let (digits, rest) := cs.span Text.isDigit
    if digits.isEmpty then .error (noDigit rest)
    else .ok ({ n with exponent := some (negative, digits) }, rest)
  | cs => .ok (n, cs)

/-- Reads the digits after the point and the exponent, if there are any. -/
def readFraction (n : Numeral) : List Char → Except Stop (Numeral × List Char)
  | '.' :: cs =>
    let (digits, rest) := cs.span Text.isDigit
    if digits.isEmpty then .error (noDigit rest)
    else readExponent { n with fraction := digits } rest
  | cs => readExponent n cs

/-- Reads a number after its sign. A leading zero stands alone before the
point. -/
def readUnsigned (negative : Bool) (cs : List Char) :
    Except Stop (Numeral × List Char) :=
  match cs.span Text.isDigit with
  | ([], rest) => .error (noDigit rest)
  | ('0' :: d :: ds, rest) =>
    .error (.both (.next .invalidNumber (d :: ds ++ rest)))
  | (digits, rest) => readFraction ⟨negative, digits, [], none⟩ rest

/-- Reads a number. -/
def read : List Char → Except Stop (Numeral × List Char)
  | '-' :: cs => readUnsigned true cs
  | cs => readUnsigned false cs

/-- The greatest unsigned 64-bit word. -/
def wordMax : Nat := Nat.pow 2 64 - 1

/-- Digits taken into a word as long as they fit: the word, and the digits left
over. -/
def takeDigits : Nat → List Char → Nat × List Char
  | n, [] => (n, [])
  | n, c :: cs =>
    if 10 * n + digit c ≤ wordMax then takeDigits (10 * n + digit c) cs
    else (n, c :: cs)

/-- A double word times `10 ^ e`, in steps of at most 308 places; `none` when it
grows beyond every double word. -/
def scale : Nat → Float → Int → Option Float
  | 0, f, _ => some f
  | fuel + 1, f, e =>
    if e.natAbs ≤ 308 then
      let power := Float.ofScientific 1 false e.natAbs
      if 0 ≤ e then
        let f := f * power
        if f.isInf then none else some f
      else some (f / power)
    else if f == 0.0 then some f
    else if 0 ≤ e then none
    else scale fuel (f / Float.ofScientific 1 false 308) (e + 308)

/-- The greatest exponent that is computed with. -/
def exponentMax : Nat := Nat.pow 2 31 - 1

/-- The value as a double word, unless it is beyond every double word. An
exponent too large to compute with decides alone. -/
def realValue? (n : Numeral) : Option Double :=
  let (significand, beyond) := takeDigits 0 n.whole
  let (significand, dropped) := takeDigits significand n.fraction
  let shift : Int := beyond.length - (n.fraction.length - dropped.length : Nat)
  let sign (f : Float) : Double := .ofFloat (if n.negative then -f else f)
  let at_ (e : Int) := (scale 16 significand.toUInt64.toFloat e).map sign
  match n.exponent with
  | none => at_ shift
  | some (negative, digits) =>
    let e := digitsValue digits
    if e ≤ exponentMax then at_ (if negative then shift - e else shift + e)
    else if significand ≠ 0 ∧ negative = false then none
    else some (sign 0.0)

/-- The value of a numeral, unless it is out of range. -/
def value? (n : Numeral) : Option Number :=
  let whole := digitsValue n.whole
  -- A zero with a sign is no whole number: as a double word it keeps the sign.
  if n.fraction.isEmpty ∧ n.exponent.isNone ∧
      (if n.negative then 0 < whole ∧ whole ≤ Nat.pow 2 63
        else whole ≤ wordMax) then
    some (.whole (if n.negative then -whole else whole))
  else (realValue? n).map .real

end Numeral

end FlowAtlas.Json
