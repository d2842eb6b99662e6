import Spreadsheet.Content
import Spreadsheet.Range

/-!
The grid of stored contents: rows of different lengths that grow as cells are written. Writing
nothing outside the stored rows stores nothing. The width is the length of the longest row.
-/
namespace Spreadsheet

structure Grid where
  rows : Array (Array Content)
  width : Nat

namespace Grid

def empty : Grid := ⟨#[], 0⟩

def ofRows (rows : Array (Array Content)) : Grid :=
  ⟨rows, rows.foldl (fun w r => max w r.size) 0⟩

def height (g : Grid) : Nat := g.rows.size

def row (g : Grid) (i : Nat) : Array Content := g.rows[i]?.getD #[]

def get (g : Grid) (c : Cell) : Content := (g.row c.row.toNat)[c.col.toNat]?.getD .empty

def set (g : Grid) (c : Cell) (v : Content) : Grid :=
  let cells := g.row c.row.toNat
  if v = .empty ∧ cells.size ≤ c.col.toNat then g
  else
    { rows := (g.rows.rightpad (c.row.toNat + 1) #[]).setIfInBounds c.row.toNat
        ((cells.rightpad (c.col.toNat + 1) .empty).setIfInBounds c.col.toNat v)
      width := max g.width (c.col.toNat + 1) }

/-- The rectangle of all rows and of all columns up to the width, if it holds a cell. -/
def usedRange? (g : Grid) : Option Range :=
  if g.height = 0 ∨ g.width = 0 then none
  else some (.ofCorners ⟨0, 0⟩ ⟨(g.height - 1).toUInt32, (g.width - 1).toUInt32⟩)

theorem set_of_empty {g : Grid} {c : Cell} (h : (g.row c.row.toNat).size ≤ c.col.toNat) :
    g.set c .empty = g := by simp [set, h]

@[simp] theorem get_empty (c : Cell) : empty.get c = .empty := by simp [get, row, empty]

end Grid

end Spreadsheet
