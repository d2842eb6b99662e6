import Spreadsheet.Text.Blank

/-!
Column names: `A` to `Z`, then `AA`, and so on, without a letter for zero. Each column has exactly
one name.
-/
namespace Spreadsheet.Column

/-- The letter of a digit below 26. -/
def letter (d : Nat) : Char := Char.ofNat ('A'.toNat + d)

/-- The name of the `n`th column, counted from one. -/
def nameOf : Nat → Text
  | 0 => []
  | n + 1 => nameOf (n / 26) ++ [letter (n % 26)]
termination_by n => n

def name (col : UInt32) : Text := nameOf (col.toNat + 1)

def numberOf (t : Text) : Nat :=
  t.foldl (fun n c => 26 * n + (c.toNat - 'A'.toNat + 1)) 0

def read? (t : Text) : Option UInt32 :=
  if t ≠ [] ∧ t.all Char.isUpper ∧ numberOf t ≤ UInt32.size then some (numberOf t - 1).toUInt32
  else none

end Spreadsheet.Column
