/-!
# The shortest decimal of a binary number

A binary number `m · 2 ^ q` stands for every real number that rounds to it. Its
decimal is the one with the fewest digits among the decimals in that interval,
and of two with equally many digits the nearer one. Everything is decided in
whole numbers: both ends of the interval and both decimals that enclose the
number on a grid are scaled to one denominator.
-/

namespace FlowAtlas.Decimal

/-- `digits · 10 ^ exponent`, with a count of digits that does not end in
zero. -/
structure Digits where
  value : Nat
  exponent : Int
  deriving DecidableEq, Repr

/-- A positive fraction. -/
structure Ratio where
  num : Nat
  den : Nat

/-- `n · 2 ^ q` as a fraction. -/
def Ratio.ofBinary (n : Nat) (q : Int) : Ratio :=
  if 0 ≤ q then ⟨n * Nat.pow 2 q.toNat, 1⟩ else ⟨n, Nat.pow 2 (-q).toNat⟩

/-- The fraction times `10 ^ e`. -/
def Ratio.shift (r : Ratio) (e : Int) : Ratio :=
  if 0 ≤ e then ⟨r.num * Nat.pow 10 e.toNat, r.den⟩
  else ⟨r.num, r.den * Nat.pow 10 (-e).toNat⟩

/-- The least `k` from `start` on with `10 ^ k · num ≥ den`, searched for `fuel`
steps. -/
def Ratio.firstReach (r : Ratio) : Nat → Nat → Nat
  | 0, start => start
  | fuel + 1, start =>
    if r.den ≤ r.num * Nat.pow 10 start then start
    else r.firstReach fuel (start + 1)

/-- The number of digits before the decimal point; zero or negative for a number
below one tenth or one. -/
def Ratio.magnitude (r : Ratio) : Int :=
  if r.den ≤ r.num then (Nat.toDigits 10 (r.num / r.den)).length
  else 1 - (r.firstReach 400 1 : Int)

/-- The reals that round to `m · 2 ^ q`: both ends in quarters of the last
binary place, and whether the ends belong to them. -/
structure Reach where
  low : Nat
  mid : Nat
  high : Nat
  closed : Bool

/-- The reach of a mantissa. Below a power of two the neighbour is half as far
away. -/
def Reach.of (m : Nat) (narrowBelow : Bool) : Reach :=
  ⟨4 * m - (if narrowBelow then 1 else 2), 4 * m, 4 * m + 2, m % 2 = 0⟩

/-- Whether the decimal `d · 10 ^ e` lies within a reach whose unit is `2 ^ (q -
2)`. -/
def Reach.holds (reach : Reach) (q : Int) (d : Nat) (e : Int) : Bool :=
  let at_ (n : Nat) := (Ratio.ofBinary n (q - 2)).shift (-e)
  let low := at_ reach.low
  let high := at_ reach.high
  if reach.closed then low.num ≤ d * low.den && d * high.den ≤ high.num
  else low.num < d * low.den && d * high.den < high.num

/-- Moves the zeros at the end of the digits into the exponent. -/
def Digits.strip : Nat → Digits → Digits
  | 0, d => d
  | fuel + 1, d =>
    if d.value ≠ 0 ∧ d.value % 10 = 0 then
      Digits.strip fuel ⟨d.value / 10, d.exponent + 1⟩ else d

/-- Tries grids of `n`, `n + 1`, … digits until one has a decimal within
reach. -/
def searchGrid (reach : Reach) (q : Int) (magnitude : Int) : Nat → Nat → Digits
  | 0, _ => ⟨0, 0⟩
  | fuel + 1, n =>
    let e := magnitude - n
    let exact := (Ratio.ofBinary reach.mid (q - 2)).shift (-e)
    let below := exact.num / exact.den
    let above := below + 1
    let lowFits := reach.holds q below e
    let highFits := reach.holds q above e
    let twiceRest := 2 * (exact.num % exact.den)
    if lowFits && highFits then
      if twiceRest < exact.den ∨ (twiceRest = exact.den ∧ below % 2 = 0) then
        ⟨below, e⟩
      else ⟨above, e⟩
    else if lowFits then ⟨below, e⟩
    else if highFits then ⟨above, e⟩
    else searchGrid reach q magnitude fuel (n + 1)

/-- The shortest decimal of `m · 2 ^ q`, for `m > 0`; seventeen digits always
suffice for a mantissa of 53 bits. -/
def shortest (m : Nat) (q : Int) (narrowBelow : Bool) : Digits :=
  let magnitude := (Ratio.ofBinary m q).magnitude
  (searchGrid (Reach.of m narrowBelow) q magnitude 20 1).strip 20

end FlowAtlas.Decimal
