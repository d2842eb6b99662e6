import Spreadsheet.Reference

/-!
Rectangles of cells, from a top left to a bottom right corner. Their cells are numbered row by
row, and a cursor goes through them one by one, so that the first few cells of a large rectangle
cost no more than those of a small one.
-/
namespace Spreadsheet

structure Range where
  start : Cell
  stop : Cell
  row_le : start.row ≤ stop.row
  col_le : start.col ≤ stop.col
  deriving DecidableEq

namespace Range

private theorem min_le_max (a b : UInt32) : min a b ≤ max a b := by
  simp only [Min.min, Max.max]
  split
  · assumption
  · exact (UInt32.le_total a b).resolve_left (by assumption)

/-- The rectangle spanned by two opposite corners. -/
def ofCorners (a b : Cell) : Range where
  start := ⟨min a.row b.row, min a.col b.col⟩
  stop := ⟨max a.row b.row, max a.col b.col⟩
  row_le := min_le_max _ _
  col_le := min_le_max _ _

def single (c : Cell) : Range := ⟨c, c, UInt32.le_refl _, UInt32.le_refl _⟩

def rowCount (r : Range) : Nat := r.stop.row.toNat - r.start.row.toNat + 1

def colCount (r : Range) : Nat := r.stop.col.toNat - r.start.col.toNat + 1

def size (r : Range) : Nat := r.rowCount * r.colCount

/-- The largest cell count that is reported. -/
def countLimit : Nat := UInt64.size - 1

def cellCount (r : Range) : Nat := min r.size countLimit

def contains (r : Range) (c : Cell) : Bool :=
  r.start.row ≤ c.row && c.row ≤ r.stop.row && r.start.col ≤ c.col && c.col ≤ r.stop.col

def rowAt (r : Range) (i : Nat) : UInt32 := (r.start.row.toNat + i).toUInt32

def colAt (r : Range) (i : Nat) : UInt32 := (r.start.col.toNat + i).toUInt32

def cellAt (r : Range) (i : Nat) : Cell := ⟨r.rowAt (i / r.colCount), r.colAt (i % r.colCount)⟩

/-- A place on the way through a range. Row and column are counted in wider words than those of a
cell, so that there is a place behind the last row and the last column of all. -/
structure Cursor where
  row : UInt64
  col : UInt64
  deriving DecidableEq

def cursor (r : Range) : Cursor := ⟨r.start.row.toUInt64, r.start.col.toUInt64⟩

/-- The cell at the cursor, and the cursor at the cell behind it: in the next column, or in the
first one of the next row. There is none behind the last row. -/
def next? (r : Range) (k : Cursor) : Option (Cell × Cursor) :=
  if r.stop.row.toUInt64 < k.row then none
  else
    some (⟨k.row.toUInt32, k.col.toUInt32⟩,
      if r.stop.col.toUInt64 < k.col + 1 then ⟨k.row + 1, r.start.col.toUInt64⟩
      else ⟨k.row, k.col + 1⟩)

/-- The cells that a cursor comes to in some number of steps, or in fewer if it is through. -/
def visit (r : Range) : (steps : Nat) → Cursor → List Cell
  | 0, _ => []
  | steps + 1, k =>
    match r.next? k with
    | none => []
    | some (c, k) => c :: visit r steps k

def firstCells (r : Range) (limit : Nat) : List Cell := r.visit limit r.cursor

def cells (r : Range) : List Cell := (List.range r.size).map r.cellAt

def rows (r : Range) : List UInt32 := (List.range r.rowCount).map r.rowAt

def cols (r : Range) : List UInt32 := (List.range r.colCount).map r.colAt

def text (r : Range) : Text := r.start.text ++ ':' :: r.stop.text

def read? (t : Text) : Option Range := do
  let (start, stop) ← Text.cutAt? ':' t
  return ofCorners (← Reference.read? start).cell (← Reference.read? stop).cell

@[simp] theorem length_cells (r : Range) : r.cells.length = r.size := by simp [cells]

theorem one_le_rowCount (r : Range) : 1 ≤ r.rowCount := Nat.le_add_left _ _

theorem one_le_colCount (r : Range) : 1 ≤ r.colCount := Nat.le_add_left _ _

end Range

end Spreadsheet
