import Spreadsheet.Number.Decimal
import Spreadsheet.Number.Whole

/-!
Rounding a number to a count of decimal places, a half away from zero. Places to the right of the
point round the decimal of the number; places to its left divide by a power of ten. A number with
no decimal falls back to multiplying by one.
-/
namespace Spreadsheet.Number

/-- The largest power of ten that is a float. -/
def largestPower : Nat := 308

def fallbackPower : Nat := 300

def roundByDivision (x : Float) (n : Nat) : Float :=
  let factor := powerOfTen n
  roundHalf (x / factor) * factor

def roundByMultiplication (x : Float) (n : Nat) : Float :=
  let factor := powerOfTen n
  roundHalf (x * factor) / factor

def roundHalfAway (x : Float) (places : Int) : Float :=
  if places < 0 then roundByDivision x (min places.natAbs largestPower)
  else
    match Decimal.ofFloat? x with
    | some d => (d.round (min places.toNat Decimal.maxScale)).toFloat
    | none => roundByMultiplication x (min places.toNat fallbackPower)

end Spreadsheet.Number
