import Spreadsheet.Text.Blank
import Spreadsheet.Text.Case

/-!
The errors a cell shows in place of a value. Reading one back ignores blanks around it and the
case of its letters.
-/
namespace Spreadsheet

inductive CellError where
  /-- The formula is malformed or its evaluation failed. -/
  | failed
  /-- The cell lies on a cycle of references. -/
  | circular
  /-- A lookup found no match. -/
  | notAvailable
  deriving DecidableEq, Repr

namespace CellError

def all : List CellError := [.failed, .circular, .notAvailable]

def text : CellError → String
  | .failed => "#ERROR!"
  | .circular => "#CIRCULAR!"
  | .notAvailable => "#N/A"

def read? (s : String) : Option CellError :=
  let t := Text.upper (Text.trim s.toList)
  all.find? fun e => e.text.toList == t

theorem mem_all (e : CellError) : e ∈ all := by cases e <;> decide

end CellError

end Spreadsheet
