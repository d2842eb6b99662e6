import Std.Data.ExtTreeMap
import Std.Data.ExtTreeSet
import Spreadsheet.Number.Reading
import Spreadsheet.Text.Cut

/-!
Cells, numbered from zero by row and column, in the order of reading: row by row, and by column
within a row. The key text of a cell is its row and its column joined by a dash; reading a key
also admits a plus sign and leading zeros before each.
-/
namespace Spreadsheet

structure Cell where
  row : UInt32
  col : UInt32
  deriving DecidableEq, Repr, Inhabited

namespace Cell

instance : Ord Cell where
  compare a b := (compare a.row b.row).then (compare a.col b.col)

theorem compare_def (a b : Cell) :
    compare a b = (compare a.row b.row).then (compare a.col b.col) := rfl

instance : Std.LawfulEqOrd Cell where
  compare_self := by simp [compare_def]
  eq_of_compare {a b} h := by
    rw [compare_def, Ordering.then_eq_eq] at h
    cases a; cases b
    simp only [mk.injEq]
    exact ⟨Std.LawfulEqOrd.eq_of_compare h.1, Std.LawfulEqOrd.eq_of_compare h.2⟩

instance : Std.TransOrd Cell :=
  inferInstanceAs (Std.TransCmp (compareLex (compareOn Cell.row) (compareOn Cell.col)))

/-- The cell moved by a number of rows and columns, unless it leaves the grid. -/
def offset? (c : Cell) (rows cols : Int) : Option Cell :=
  let row := c.row.toNat + rows
  let col := c.col.toNat + cols
  if 0 ≤ row ∧ row < UInt32.size ∧ 0 ≤ col ∧ col < UInt32.size then
    some ⟨row.toNat.toUInt32, col.toNat.toUInt32⟩
  else none

def keyText (c : Cell) : Text :=
  Number.natText c.row.toNat ++ '-' :: Number.natText c.col.toNat

def key (c : Cell) : String := String.ofList c.keyText

/-- A coordinate of a key: digits, after an optional plus sign. -/
def readCoordinate? (t : Text) : Option UInt32 :=
  let digits := match t with
    | '+' :: r => r
    | _ => t
  (Number.readNat? digits).bind fun n => if n < UInt32.size then some n.toUInt32 else none

def readKey? (t : Text) : Option Cell := do
  let (row, col) ← Text.cutAt? '-' t
  return ⟨← readCoordinate? row, ← readCoordinate? col⟩

end Cell

abbrev CellSet := Std.ExtTreeSet Cell

abbrev CellMap (β : Type) := Std.ExtTreeMap Cell β

end Spreadsheet
