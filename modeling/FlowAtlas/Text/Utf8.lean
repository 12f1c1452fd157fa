/-!
# Text from bytes that may be broken

Reads bytes as UTF-8. Where they cannot be read, the longest run of bytes that
could have begun a character gives way to one replacement character, and reading
goes on with the byte behind it.
-/

namespace FlowAtlas.Text

/-- The character for bytes that cannot be read. -/
def replacement : Char := '\uFFFD'

/-- A character that has been begun: the bits so far, how many bytes are to
come, and the bounds of the next one. -/
structure Begun where
  bits : Nat
  left : Nat
  low : Nat := 0x80
  high : Nat := 0xBF

/-- What a byte begins that stands at the start of a character of several
bytes. -/
def begin? (b : Nat) : Option Begun :=
  if 0xC2 ≤ b ∧ b ≤ 0xDF then some { bits := b - 0xC0, left := 1 }
  else if b = 0xE0 then some { bits := 0, left := 2, low := 0xA0 }
  else if b = 0xED then some { bits := 0xD, left := 2, high := 0x9F }
  else if 0xE1 ≤ b ∧ b ≤ 0xEF then some { bits := b - 0xE0, left := 2 }
  else if b = 0xF0 then some { bits := 0, left := 3, low := 0x90 }
  else if 0xF1 ≤ b ∧ b ≤ 0xF3 then some { bits := b - 0xF0, left := 3 }
  else if b = 0xF4 then some { bits := 4, left := 3, high := 0x8F }
  else none

/-- Reads a byte at the start of a character. -/
def fresh (b : Nat) : List Char × Option Begun :=
  if b < 0x80 then ([Char.ofNat b], none)
  else match begin? b with
    | some begun => ([], some begun)
    | none => ([replacement], none)

/-- Reads bytes behind a character that may have been begun. -/
def decodeFrom : Option Begun → List UInt8 → List Char
  | none, [] => []
  | some _, [] => [replacement]
  | none, b :: bs =>
    let (chars, begun) := fresh b.toNat
    chars ++ decodeFrom begun bs
  | some g, b :: bs =>
    let n := b.toNat
    if g.low ≤ n ∧ n ≤ g.high then
      let bits := 64 * g.bits + (n - 0x80)
      if g.left = 1 then Char.ofNat bits :: decodeFrom none bs
      else decodeFrom (some { bits, left := g.left - 1 }) bs
    else
      let (chars, begun) := fresh n
      replacement :: chars ++ decodeFrom begun bs

/-- The text of some bytes. -/
def decodeLossy (bytes : List UInt8) : String :=
  String.ofList (decodeFrom none bytes)

end FlowAtlas.Text
