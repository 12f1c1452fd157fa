import FlowAtlas.Decimal.Shortest

/-!
# Double words

A 64-bit binary floating-point number, kept as its bits so that it can be
compared, stored and taken apart. Arithmetic is the machine's.
-/

namespace FlowAtlas.Decimal

/-- The bits of a 64-bit binary floating-point number. -/
structure Double where
  bits : UInt64
  deriving DecidableEq, Repr, Inhabited

namespace Double

/-- The number that the machine computes with. -/
def toFloat (d : Double) : Float := Float.ofBits d.bits

/-- The bits of a machine number. -/
def ofFloat (f : Float) : Double := ⟨f.toBits⟩

/-- Whether the sign bit is set. -/
def isNegative (d : Double) : Bool := d.bits >>> 63 = 1

/-- The eleven bits of the exponent. -/
def exponentField (d : Double) : Nat := ((d.bits >>> 52) &&& 0x7FF).toNat

/-- The 52 bits of the fraction. -/
def fractionField (d : Double) : Nat := (d.bits &&& 0xFFFFFFFFFFFFF).toNat

/-- Whether the number is neither infinite nor a NaN. -/
def isFinite (d : Double) : Bool := d.exponentField ≠ 0x7FF

/-- Whether the number is not a number. -/
def isNaN (d : Double) : Bool := d.exponentField = 0x7FF ∧ d.fractionField ≠ 0

/-- The shortest decimal of the absolute value of a finite number. -/
def digits (d : Double) : Digits :=
  let e := d.exponentField
  let f := d.fractionField
  if e = 0 then
    if f = 0 then ⟨0, 0⟩ else shortest f (-1074) false
  else shortest (f + Nat.pow 2 52) ((e : Int) - 1075) (f = 0 ∧ 1 < e)

end Double

/-- How a decimal is laid out: for which decimal exponents its digits stand
around a plain decimal point, and whether a mark of magnitude carries a plus
sign. -/
structure Layout where
  /-- The least and the greatest exponent of the first digit that is written
  plainly; `none` when every number is. -/
  plain? : Option (Int × Int)

/-- The digits of a decimal as characters. -/
def digitChars (d : Digits) : List Char := Nat.toDigits 10 d.value

/-- The digits around a plain decimal point, with at least one digit on both
sides. -/
def plainChars (d : Digits) : List Char :=
  let ds := digitChars d
  let point : Int := ds.length + d.exponent
  if 0 ≤ d.exponent then ds ++ List.replicate d.exponent.toNat '0' ++ ['.', '0']
  else if 0 < point then ds.take point.toNat ++ ['.'] ++ ds.drop point.toNat
  else ['0', '.'] ++ List.replicate (-point).toNat '0' ++ ds

/-- The first digit, the others after a point, and the exponent with its
sign. -/
def markedChars (d : Digits) : List Char :=
  let ds := digitChars d
  let e : Int := ds.length + d.exponent - 1
  let head := match ds with
    | [] => []
    | [c] => [c]
    | c :: cs => c :: '.' :: cs
  head ++ ['e', if e < 0 then '-' else '+'] ++ Nat.toDigits 10 e.natAbs

/-- The text of a number under a layout. -/
def Double.render (layout : Layout) (d : Double) : String :=
  let sign := if d.isNegative then ['-'] else []
  if d.isNaN then "NaN"
  else if !d.isFinite then String.ofList (sign ++ ['i', 'n', 'f'])
  else
    let ds := d.digits
    let first : Int := (digitChars ds).length + ds.exponent - 1
    let isPlain := match layout.plain? with
      | none => true
      | some (lo, hi) => d.digits.value = 0 ∨ (lo ≤ first ∧ first ≤ hi)
    String.ofList (sign ++ if isPlain then plainChars ds else markedChars ds)

/-- A decimal exponent marks magnitudes outside of `10 ^ -5` to `10 ^ 15`. -/
def Layout.compact : Layout := ⟨some (-5, 15)⟩

/-- Every number is written out. -/
def Layout.full : Layout := ⟨none⟩

end FlowAtlas.Decimal
