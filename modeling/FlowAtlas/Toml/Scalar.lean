import FlowAtlas.Text.Digits
import FlowAtlas.Toml.Basic

/-!
# TOML scalars

Strings in their four notations, and the words that stand for numbers, truth
values, dates and times. Every reader gives what follows in the text, or nothing
when the text breaks a rule.
-/

namespace FlowAtlas.Toml

open Decimal (Double)

/-- Space within a line. -/
def isGap (c : Char) : Bool := c = ' ' || c = '\t'

/-- Passes over space within a line. -/
def skipGap (cs : List Char) : List Char := cs.dropWhile isGap

/-- Whether a character may stand in a comment or a literal string. -/
def isVisible (c : Char) : Bool :=
  c = '\t' || (0x20 ≤ c.toNat && c.toNat ≠ 0x7F)

/-- The rest of the text behind a line end. -/
def lineEnd? : List Char → Option (List Char)
  | '\n' :: cs => some cs
  | '\r' :: '\n' :: cs => some cs
  | _ => none

/-! ## Strings -/

/-- The character whose code is written with exactly so many hexadecimal
digits. -/
def codeChar? (count : Nat) (cs : List Char) : Option (Char × List Char) := do
  let digits ← (cs.take count).mapM Text.hexValue?
  if digits.length ≠ count then none
  else
    let n := digits.foldl (fun n d => 16 * n + d) 0
    if h : n.isValidChar then some (Char.ofNatAux n h, cs.drop count) else none

/-- What an escape stands for, behind its backslash. -/
def escaped? : List Char → Option (Char × List Char)
  | 'b' :: cs => some ('\x08', cs)
  | 't' :: cs => some ('\t', cs)
  | 'n' :: cs => some ('\n', cs)
  | 'f' :: cs => some ('\x0c', cs)
  | 'r' :: cs => some ('\r', cs)
  | '"' :: cs => some ('"', cs)
  | '\\' :: cs => some ('\\', cs)
  | 'u' :: cs => codeChar? 4 cs
  | 'U' :: cs => codeChar? 8 cs
  | _ => none

/-- Reads a basic string behind its quote. -/
def basicString? : Nat → List Char → Option (List Char × List Char)
  | 0, _ => none
  | fuel + 1, cs =>
    match cs with
    | '"' :: rest => some ([], rest)
    | '\\' :: rest => do
      let (c, rest) ← escaped? rest
      let (s, rest) ← basicString? fuel rest
      pure (c :: s, rest)
    | c :: rest =>
      if isVisible c then do
        let (s, rest) ← basicString? fuel rest
        pure (c :: s, rest)
      else none
    | [] => none

/-- Reads a literal string behind its quote. -/
def literalString? (cs : List Char) : Option (List Char × List Char) :=
  let (s, rest) := cs.span fun c => c ≠ '\''
  match rest with
  | _ :: rest => if s.all isVisible then some (s, rest) else none
  | [] => none

/-- Behind the opening quotes, a line end does not belong to a string of several
lines. -/
def dropFirstLineEnd (cs : List Char) : List Char := (lineEnd? cs).getD cs

/-- The end of a string of several lines: up to two quotes more than three
belong to it. -/
def closeLines? (quote : Char) (cs : List Char) :
    Option (List Char × List Char) :=
  let (quotes, rest) := cs.span fun c => c = quote
  if quotes.length < 3 then none
  else
    let extra := min (quotes.length - 3) 2
    some (List.replicate extra quote,
      List.replicate (quotes.length - 3 - extra) quote ++ rest)

/-- Passes over a line end and all space behind it, when the line has nothing
else to its end. -/
def foldedLine? (cs : List Char) : Option (List Char) :=
  (lineEnd? (skipGap cs)).map fun rest =>
    rest.dropWhile fun c => isGap c || c = '\n' || c = '\r'

/-- Reads a basic string of several lines behind its quotes. -/
def basicLines? : Nat → List Char → Option (List Char × List Char)
  | 0, _ => none
  | fuel + 1, cs =>
    match closeLines? '"' cs with
    | some done => some done
    | none =>
      match cs with
      | [] => none
      | '\\' :: rest =>
        match foldedLine? rest with
        | some rest => basicLines? fuel rest
        | none => do
          let (c, rest) ← escaped? rest
          let (s, rest) ← basicLines? fuel rest
          pure (c :: s, rest)
      | c :: rest =>
        match lineEnd? cs with
        | some rest => do
          let (s, rest) ← basicLines? fuel rest
          pure ('\n' :: s, rest)
        | none =>
          if isVisible c then do
            let (s, rest) ← basicLines? fuel rest
            pure (c :: s, rest)
          else none

/-- Reads a literal string of several lines behind its quotes. -/
def literalLines? : Nat → List Char → Option (List Char × List Char)
  | 0, _ => none
  | fuel + 1, cs =>
    match closeLines? '\'' cs with
    | some done => some done
    | none =>
      match cs, lineEnd? cs with
      | [], _ => none
      | _, some rest => do
        let (s, rest) ← literalLines? fuel rest
        pure ('\n' :: s, rest)
      | c :: rest, none =>
        if isVisible c then do
          let (s, rest) ← literalLines? fuel rest
          pure (c :: s, rest)
        else none

/-- Reads a string that may not go over several lines. -/
def lineString? (cs : List Char) : Option (String × List Char) :=
  match cs with
  | '"' :: rest => (basicString? (rest.length + 1) rest).map fun r =>
    (String.ofList r.1, r.2)
  | '\'' :: rest => (literalString? rest).map fun r => (String.ofList r.1, r.2)
  | _ => none

/-- Reads a string in any notation. -/
def string? (cs : List Char) : Option (String × List Char) :=
  match cs with
  | '"' :: '"' :: '"' :: rest =>
    let rest := dropFirstLineEnd rest
    (basicLines? (rest.length + 1) rest).map fun r => (String.ofList r.1, r.2)
  | '\'' :: '\'' :: '\'' :: rest =>
    let rest := dropFirstLineEnd rest
    (literalLines? (rest.length + 1) rest).map fun r => (String.ofList r.1, r.2)
  | cs => lineString? cs

/-! ## Numbers -/

/-- The digits of a row in which an underscore may stand between two digits. -/
def digitRow? (isDigit : Char → Bool) : List Char → Option (List Char)
  | [] => none
  | [c] => if isDigit c then some [c] else none
  | c :: '_' :: rest => if isDigit c then (digitRow? isDigit rest).map (c :: ·)
      else none
  | c :: rest => if isDigit c then (digitRow? isDigit rest).map (c :: ·)
      else none

/-- The number that digits stand for. -/
def rowValue (base : Nat) (digits : List Char) : Nat :=
  digits.foldl (fun n c => base * n + (Text.hexValue? c).getD 0) 0

/-- A whole number of 64 bits. -/
def word? (n : Int) : Option Int :=
  let bound : Int := Nat.pow 2 63
  if -bound ≤ n ∧ n < bound then some n else none

/-- A sign and what follows it. -/
def signed (cs : List Char) : Bool × List Char :=
  match cs with
  | '+' :: cs => (false, cs)
  | '-' :: cs => (true, cs)
  | cs => (false, cs)

/-- The digits of a decimal number, which does not start with a zero unless it
is one. -/
def wholeRow? (cs : List Char) : Option (List Char) :=
  match digitRow? Text.isDigit cs with
  | some ('0' :: _ :: _) => none
  | row => row

/-- A word that stands for a whole number. -/
def integer? (cs : List Char) : Option Int :=
  let based (base : Nat) (isDigit : Char → Bool) (cs : List Char) :
      Option Int := do
        let row ← digitRow? isDigit cs
        word? (rowValue base row)
  match cs with
  | '0' :: 'x' :: cs => based 16 (fun c => (Text.hexValue? c).isSome) cs
  | '0' :: 'o' :: cs => based 8 (fun c => '0' ≤ c && c ≤ '7') cs
  | '0' :: 'b' :: cs => based 2 (fun c => c = '0' || c = '1') cs
  | cs => do
    let (negative, cs) := signed cs
    let row ← wholeRow? cs
    let n : Int := rowValue 10 row
    word? (if negative then -n else n)

/-- The exponent of a number behind its mark. -/
def exponent? (cs : List Char) : Option Int := do
  let (negative, cs) := signed cs
  let row ← digitRow? Text.isDigit cs
  let n : Int := rowValue 10 row
  pure (if negative then -n else n)

/-- The double word nearest to `n · 10 ^ e`. Exponents beyond all bounds are
cut. -/
def decimal (n : Nat) (e : Int) : Float :=
  let e := max (-100000) (min 100000 e)
  Float.ofScientific n (e < 0) e.natAbs

/-- A word that stands for a number with a point, an exponent, or a name. A
number too large is refused. -/
def float? (cs : List Char) : Option Double := do
  let (negative, body) := signed cs
  let sign (f : Float) : Float := if negative then -f else f
  match body with
  | ['i', 'n', 'f'] => some (.ofFloat (sign (1.0 / 0.0)))
  | ['n', 'a', 'n'] => some (.ofFloat (sign (0.0 / 0.0)))
  | body =>
    let (mantissa, mark) := body.span fun c => c ≠ 'e' && c ≠ 'E'
    let (whole, point) := mantissa.span fun c => c ≠ '.'
    if mark.isEmpty && point.isEmpty then none
    else
      let whole ← wholeRow? whole
      let fraction ← match point with
        | [] => some []
        | _ :: cs => digitRow? Text.isDigit cs
      let e ← match mark with
        | [] => some 0
        | _ :: cs => exponent? cs
      let f :=
        sign (decimal (rowValue 10 (whole ++ fraction)) (e - fraction.length))
      if f == 1.0 / 0.0 then none else some (.ofFloat f)

/-! ## Dates and times -/

/-- The number that exactly so many digits at the front stand for. -/
def fixedDigits? (count : Nat) (cs : List Char) : Option (Nat × List Char) :=
  let digits := cs.take count
  if digits.length = count ∧ digits.all Text.isDigit then
    some (rowValue 10 digits, cs.drop count)
  else none

/-- What follows an expected character. -/
def expect? (c : Char) : List Char → Option (List Char)
  | d :: cs => if d = c then some cs else none
  | [] => none

/-- The number of days of a month. -/
def monthDays (year month : Nat) : Nat :=
  if month = 2 then
    if (year % 4 = 0 ∧ year % 100 ≠ 0) ∨ year % 400 = 0 then 29 else 28
  else if month = 4 ∨ month = 6 ∨ month = 9 ∨ month = 11 then 30 else 31

/-- What follows a date. -/
def date? (cs : List Char) : Option (List Char) := do
  let (year, cs) ← fixedDigits? 4 cs
  let (month, cs) ← fixedDigits? 2 (← expect? '-' cs)
  let (day, cs) ← fixedDigits? 2 (← expect? '-' cs)
  if 1 ≤ month ∧ month ≤ 12 ∧ 1 ≤ day ∧ day ≤ monthDays year month then
    some cs else none

/-- What follows an hour and a minute. -/
def hourMinute? (cs : List Char) : Option (List Char) := do
  let (hour, cs) ← fixedDigits? 2 cs
  let (minute, cs) ← fixedDigits? 2 (← expect? ':' cs)
  if hour ≤ 23 ∧ minute ≤ 59 then some cs else none

/-- What follows a time of the day. -/
def time? (cs : List Char) : Option (List Char) := do
  let cs ← hourMinute? cs
  let (second, cs) ← fixedDigits? 2 (← expect? ':' cs)
  if 60 < second then none
  else match cs with
    | '.' :: rest =>
      let (digits, rest) := rest.span Text.isDigit
      if digits.isEmpty then none else some rest
    | cs => some cs

/-- Whether nothing but an offset from universal time is left. -/
def isOffset : List Char → Bool
  | [] => true
  | ['Z'] | ['z'] => true
  | '+' :: cs | '-' :: cs => hourMinute? cs = some []
  | _ => false

/-- Whether a word stands for a date, a time, or both. -/
def isDatetime (cs : List Char) : Bool :=
  match date? cs with
  | some [] => true
  | some ('T' :: rest) | some ('t' :: rest) | some (' ' :: rest) =>
    match time? rest with
    | some rest => isOffset rest
    | none => false
  | some _ => false
  | none => time? cs = some []

/-! ## Words -/

/-- Whether a character may stand in a word. -/
def isWordChar (c : Char) : Bool :=
  c.isAlphanum || c = '+' || c = '-' || c = '_' || c = '.' || c = ':'

/-- The word at the front. A date and a time may be joined by a space. -/
def splitWord (cs : List Char) : List Char × List Char :=
  let (word, rest) := cs.span isWordChar
  match rest with
  | ' ' :: d :: more =>
    if Text.isDigit d && date? word = some [] then
      let (time, rest) := (d :: more).span isWordChar
      (word ++ ' ' :: time, rest)
    else (word, rest)
  | rest => (word, rest)

/-- Reads a value that is one word. -/
def wordValue? (cs : List Char) : Option (Value × List Char) :=
  let (word, rest) := splitWord cs
  match word with
  | ['t', 'r', 'u', 'e'] => some (.boolean true, rest)
  | ['f', 'a', 'l', 's', 'e'] => some (.boolean false, rest)
  | word =>
    match integer? word, float? word with
    | some n, _ => some (.integer n, rest)
    | none, some d => some (.float d, rest)
    | none, none => if isDatetime word then some (.datetime, rest) else none

end FlowAtlas.Toml
