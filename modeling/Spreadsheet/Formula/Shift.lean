import Spreadsheet.Formula.Scan

/-!
Formulas that move with their cell. Each token takes the move of its formula, except for anchored
components; a token that would leave the grid stays as it is.
-/
namespace Spreadsheet.Formula

/-- The formula after a move by a number of rows and columns. -/
def shift (t : Text) (rows cols : Int) : Text :=
  if rows = 0 ∧ cols = 0 then t
  else rewrite (fun _ k => (k.shift? rows cols).map Token.text) t

/-- The formula copied from one cell to another. -/
def copy (t : Text) (source target : Cell) : Text :=
  shift t ((target.row.toNat : Int) - source.row.toNat) ((target.col.toNat : Int) - source.col.toNat)

@[simp] theorem shift_zero (t : Text) : shift t 0 0 = t := by simp [shift]

theorem copy_self (t : Text) (c : Cell) : copy t c c = t := by simp [copy]

end Spreadsheet.Formula
