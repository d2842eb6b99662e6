import Spreadsheet.Number.Binary

/-!
The fewest decimal digits that read back as a given float. Around the float lies the interval of
reals that round to it. Of the decimal grids, coarsest first, the first with a point in that
interval gives the digits: of the two grid points beside the float the nearer one that lies in the
interval, and the upper one when both are equally near.
-/
namespace Spreadsheet.Number

/-- The decimal `coefficient * 10 ^ exponent`. -/
structure Digits where
  coefficient : Nat
  exponent : Int
  deriving DecidableEq, Repr

/-- The float `point * 2 ^ exponent` between the ends of the reals that round to it. -/
structure Interval where
  low : Nat
  point : Nat
  high : Nat
  exponent : Int
  /-- Whether the ends round to the float too. -/
  closed : Bool

namespace Interval

/-- In units of a quarter of the last place. The gap below a power of two is half as wide. -/
def ofSignificand (m : Nat) (e : Int) : Interval where
  low := if m = Binary.hiddenBit ∧ -1074 < e then 4 * m - 1 else 4 * m - 2
  point := 4 * m
  high := 4 * m + 2
  exponent := e - 2
  closed := m % 2 == 0

/-- The grid of multiples of `10 ^ k` against the interval: multiplied by `ends` and `steps`
the interval's numbers and the grid's indices are on one scale. -/
structure Scale where
  ends : Nat
  steps : Nat

def scale (i : Interval) (k : Int) : Scale where
  ends := twoTo i.exponent.toNat * tenTo (-k).toNat
  steps := twoTo (-i.exponent).toNat * tenTo k.toNat

def holds (i : Interval) (s : Scale) (d : Nat) : Bool :=
  if i.closed then i.low * s.ends ≤ d * s.steps && d * s.steps ≤ i.high * s.ends
  else i.low * s.ends < d * s.steps && d * s.steps < i.high * s.ends

/-- The point of the grid of multiples of `10 ^ k` that stands for the float, if one lies in its
interval. -/
def onGrid? (i : Interval) (k : Int) : Option Nat :=
  let s := i.scale k
  let d := i.point * s.ends / s.steps
  match i.holds s d, i.holds s (d + 1) with
  | true, true => some (if 2 * (i.point * s.ends) < (2 * d + 1) * s.steps then d else d + 1)
  | true, false => some d
  | false, true => some (d + 1)
  | false, false => none

/-- A power of ten above the interval: from there on no grid has a point in it. -/
def ceiling (i : Interval) : Int := (i.point.log2 + i.exponent) * 30103 / 100000 + 3

end Interval

def coarsest (i : Interval) : (grids : Nat) → (k : Int) → Digits
  | 0, k => ⟨i.point * (i.scale k).ends / (i.scale k).steps, k⟩
  | n + 1, k =>
    match i.onGrid? k with
    | some d => ⟨d, k⟩
    | none => coarsest i n (k - 1)

/-- Twenty-four grids reach from above the float to far below its last place. -/
def shortestDigits (m : Nat) (e : Int) : Digits :=
  if m = 0 then ⟨0, 0⟩
  else
    let i := Interval.ofSignificand m e
    coarsest i 24 i.ceiling

end Spreadsheet.Number
