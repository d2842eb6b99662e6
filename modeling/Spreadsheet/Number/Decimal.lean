import Spreadsheet.Number.Reading

/-!
Decimals of at most 28 places over a 96-bit coefficient, and the decimal that stands for a float
when it is rounded: the binary fraction is turned into a decimal one digit by digit, cut to 28
places and then to about fifteen digits, and stripped of trailing zeros.
-/
namespace Spreadsheet.Number

/-- `± coefficient / 10 ^ scale`. -/
structure Decimal where
  negative : Bool
  coefficient : Nat
  scale : Nat
  deriving DecidableEq, Repr

namespace Decimal

def coefficientBound : Nat := twoTo 96

def maxScale : Nat := 28

/-- Coefficients from here on are cut while they have places left. -/
def precisionBound : Nat := twoTo 52

/-- A coefficient during conversion, with powers of ten still to be applied. -/
structure Conversion where
  coefficient : Nat
  tens : Int

/-- Turn `halvings` halvings into tenths, by halving an even coefficient and else multiplying by five;
a coefficient too large for that loses its last bit. -/
def clearHalvings : (halvings : Nat) → Conversion → Conversion
  | 0, p => p
  | n + 1, p =>
    clearHalvings n <|
      if p.coefficient % 2 = 0 then ⟨p.coefficient / 2, p.tens + 1⟩
      else if 5 * p.coefficient < coefficientBound then ⟨5 * p.coefficient, p.tens⟩
      else ⟨p.coefficient / 2, p.tens + 1⟩

/-- Turn `doublings` doublings into tens. Nothing is left once more powers of ten are outstanding than
the remaining doublings could use up. -/
def clearDoublings : (doublings : Nat) → Conversion → Option Conversion
  | 0, p => some p
  | n + 1, p =>
    if p.coefficient < coefficientBound / 2 then clearDoublings n ⟨2 * p.coefficient, p.tens - 1⟩
    else if n + 1 < 2 * p.tens then none
    else clearDoublings n ⟨p.coefficient / 5, p.tens⟩

def clearTens : (tens : Nat) → (coefficient : Nat) → Option Nat
  | 0, m => some m
  | n + 1, m => if 10 * m < coefficientBound then clearTens n (10 * m) else none

/-- The coefficient without its last digit, rounded by that digit. -/
def dropDigit (m : Nat) : Nat := if 5 ≤ m % 10 then m / 10 + 1 else m / 10

/-- Drop the places beyond the last admitted one. A coefficient that runs out of digits is zero. -/
def limitScale : (excess : Nat) → (coefficient scale : Nat) → Nat × Nat
  | 0, m, s => (m, s)
  | n + 1, m, s => if m / 10 = 0 then (0, 0) else limitScale n (dropDigit m) (s - 1)

def limitPrecision : (coefficient scale : Nat) → Nat × Nat
  | m, 0 => (m, 0)
  | m, s + 1 => if precisionBound ≤ m then limitPrecision (dropDigit m) s else (m, s + 1)

def stripZeros : (coefficient scale : Nat) → Nat × Nat
  | m, 0 => (m, 0)
  | m, s + 1 => if m % 10 = 0 then stripZeros (m / 10) s else (m, s + 1)

def settle (negative : Bool) (m s : Nat) : Decimal :=
  let (m, s) := limitScale (s - maxScale) m s
  let (m, s) := limitPrecision m s
  let (m, s) := stripZeros m s
  ⟨negative, m, s⟩

/-- The decimal for a finite float, none if it is too large. -/
def ofFloat? (x : Float) : Option Decimal :=
  match Binary.ofFloat x with
  | .finite s m e =>
    if m = 0 then some ⟨s, 0, 0⟩
    else
      (clearDoublings e.toNat (clearHalvings (-e).toNat ⟨m, e⟩)).bind fun p =>
        if p.tens ≤ 0 then some (settle s p.coefficient (-p.tens).toNat)
        else (clearTens p.tens.toNat p.coefficient).map fun m => ⟨s, m, 0⟩
  | _ => none

/-- Round to `places` places, a half away from zero. A nonzero decimal that rounds to zero loses its
sign. -/
def round (d : Decimal) (places : Nat) : Decimal :=
  if d.scale ≤ places then d
  else if d.coefficient = 0 then ⟨d.negative, 0, places⟩
  else
    let unit := tenTo (d.scale - places)
    let m := d.coefficient / unit + if unit ≤ 2 * (d.coefficient % unit) then 1 else 0
    ⟨d.negative && m != 0, m, places⟩

def toFloat (d : Decimal) : Float :=
  signed d.negative (nearestFloat d.coefficient (-d.scale))

theorem round_of_scale_le {d : Decimal} {places : Nat} (h : d.scale ≤ places) :
    d.round places = d := if_pos h

end Decimal

end Spreadsheet.Number
