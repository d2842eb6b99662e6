import Spreadsheet.Cell
import Spreadsheet.Column

/-!
References to cells as formulas write them: column letters and a row number counted from one. A
dollar sign anchors the component it precedes; an anchored component stays where it is when the
formula moves.
-/
namespace Spreadsheet

structure Reference where
  cell : Cell
  anchoredRow : Bool
  anchoredCol : Bool
  deriving DecidableEq, Repr

namespace Reference

def anchor (anchored : Bool) : Text := if anchored then ['$'] else []

def text (r : Reference) : Text :=
  anchor r.anchoredCol ++ Column.name r.cell.col ++ anchor r.anchoredRow
    ++ Number.natText (r.cell.row.toNat + 1)

def relative (c : Cell) : Reference := ⟨c, false, false⟩

def splitAnchor : Text → Bool × Text
  | '$' :: r => (true, r)
  | r => (false, r)

/-- A row number, counted from one. -/
def readRow? (t : Text) : Option UInt32 :=
  (Number.readNat? t).bind fun n =>
    if 1 ≤ n ∧ n ≤ UInt32.size then some (n - 1).toUInt32 else none

def read? (t : Text) : Option Reference :=
  let (anchoredCol, t) := splitAnchor t
  let (letters, t) := Text.splitWhile Char.isUpper t
  let (anchoredRow, digits) := splitAnchor t
  (Column.read? letters).bind fun col =>
    (readRow? digits).map fun row => ⟨⟨row, col⟩, anchoredRow, anchoredCol⟩

/-- The reference as it reads after a move of its formula, unless it leaves the grid. -/
def shift? (r : Reference) (rows cols : Int) : Option Reference :=
  (r.cell.offset? (if r.anchoredRow then 0 else rows) (if r.anchoredCol then 0 else cols)).map
    fun c => { r with cell := c }

end Reference

/-- The plain reference to a cell. -/
def Cell.text (c : Cell) : Text := (Reference.relative c).text

end Spreadsheet
