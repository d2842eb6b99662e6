import Spreadsheet.Number.Form
import Spreadsheet.Text.Cut

/-!
Reading decimal text: a sign, digits with or without a point, an exponent. The value is the float
nearest to the decimal, infinite or zero where the decimal is out of range. The number of a cell
or of an argument is such a text between blanks, and it has to be finite.
-/
namespace Spreadsheet.Number

/-- A decimal taken apart: `± coefficient * 10 ^ exponent`. -/
structure DecimalText where
  negative : Bool
  coefficient : Nat
  exponent : Int
  deriving DecidableEq, Repr

def readSign : Text → Bool × Text
  | '-' :: r => (true, r)
  | '+' :: r => (false, r)
  | r => (false, r)

def digitsValue (t : Text) : Nat := Nat.ofDigitChars 10 t 0

/-- The whole text as one or more digits. -/
def readNat? (t : Text) : Option Nat :=
  if t ≠ [] ∧ t.all Char.isDigit then some (digitsValue t) else none

theorem readNat?_eq_some_iff {t : Text} {n : Nat} : readNat? t = some n ↔
    t ≠ [] ∧ (∀ c ∈ t, c.isDigit = true) ∧ digitsValue t = n := by
  simp only [readNat?, Option.ite_none_right_eq_some, List.all_eq_true, Option.some.injEq, and_assoc]

theorem readNat?_natText (n : Nat) : readNat? (natText n) = some n :=
  readNat?_eq_some_iff.2
    ⟨natText_ne_nil n, fun _ => isDigit_of_mem_natText, ofDigitChars_natText n⟩

def readExponent? : Text → Option Int
  | [] => some 0
  | c :: r =>
    if c = 'e' ∨ c = 'E' then
      let (negative, digits) := readSign r
      (readNat? digits).map fun n => if negative then -(n : Int) else n
    else none

/-- The digits after a point, and what follows them. -/
def splitFraction : Text → Text × Text
  | '.' :: r => Text.splitWhile Char.isDigit r
  | r => ([], r)

def DecimalText.read? (t : Text) : Option DecimalText :=
  let (negative, r) := readSign t
  let (whole, r) := Text.splitWhile Char.isDigit r
  let (fraction, r) := splitFraction r
  if whole = [] ∧ fraction = [] then none
  else
    (readExponent? r).map fun e =>
      ⟨negative, digitsValue (whole ++ fraction), e - fraction.length⟩

/-- Every decimal from this power of ten on is beyond the floats. -/
def decimalReach : Nat := 400

/-- The float nearest to `c * 10 ^ e`. An exponent beyond the reach is cut back to it, which
changes no result and keeps the powers of ten small. -/
def nearestFloat (c : Nat) (e : Int) : Float :=
  if 0 ≤ e then Float.ofScientific c false (min e.toNat decimalReach)
  else Float.ofScientific c true (min (-e).toNat (decimalReach + c.log2))

def DecimalText.toFloat (d : DecimalText) : Float :=
  signed d.negative (nearestFloat d.coefficient d.exponent)

def readFloat? (t : Text) : Option Float := (DecimalText.read? t).map DecimalText.toFloat

/-- The finite number that a text between blanks denotes. -/
def parse? (t : Text) : Option Float :=
  (readFloat? (Text.trim t)).filter Float.isFinite

def parseText? (s : String) : Option Float := parse? s.toList

end Spreadsheet.Number
