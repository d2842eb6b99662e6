import Spreadsheet.Context
import Spreadsheet.Graph.Cycle
import Spreadsheet.Graph.Order

/-!
The formulas of a sheet with their graph and the cells on cycles. The graph is built again after
every change of a formula, before any cell is evaluated. The cells to show again after an edit are
the edited ones and all that read them; while some range is left out of the graph, all formula
cells are.
-/
namespace Spreadsheet

structure Engine where
  options : Options
  formulas : Formulas
  graph : Graph
  circular : CellSet

namespace Engine

def empty (o : Options) : Engine := ⟨o, .empty, .empty, ∅⟩

/-- How many formulas, edges and cells on cycles there are, and whether a range was left out. -/
structure Stats where
  formulas : Nat
  edges : Nat
  circular : Nat
  isPartial : Bool
  deriving DecidableEq, Repr

def stats (e : Engine) : Stats :=
  ⟨e.formulas.size, e.graph.edgeCount, e.circular.size, e.graph.isPartial⟩

/-- Derive the graph and the cells on cycles from the formulas. -/
def rebuild (e : Engine) : Engine :=
  let graph := Graph.build e.formulas e.options.maxRangeCells
  { e with graph, circular := graph.circularCells }

def setOptions (e : Engine) (o : Options) : Engine := { e with options := o }.rebuild

/-- The formulas of a grid. -/
def formulasOf (g : Grid) : Formulas :=
  match g.usedRange? with
  | none => .empty
  | some r => r.cells.foldl (fun f c => f.record c (g.get c)) .empty

def load (e : Engine) (g : Grid) : Engine := { e with formulas := formulasOf g }.rebuild

/-- Take note of the content of a cell. The graph is that of the formulas before. -/
def record (e : Engine) (c : Cell) (v : Content) : Engine :=
  { e with formulas := e.formulas.record c v }

/-- The cells to show again after the given ones were edited. -/
def affected (e : Engine) (changed : List Cell) : List Cell :=
  if e.graph.isPartial then (changed ++ e.formulas.cells).eraseDups
  else e.graph.recalcOrder changed

/-- Whether some edit in turn changes a formula. -/
def anyAlters (f : Formulas) : List (Cell × Content) → Bool
  | [] => false
  | (c, v) :: edits => f.alters c v.formula? || anyAlters (f.record c v) edits

/-- Take note of edits, and rebuild if they changed a formula. -/
def apply (e : Engine) (edits : List (Cell × Content)) : Engine :=
  let noted := edits.foldl (fun e (c, v) => e.record c v) e
  if anyAlters e.formulas edits then noted.rebuild else noted

/-- Take note of edits; the cells to show again come with the engine. -/
def updateMany (e : Engine) (edits : List (Cell × Content)) : List Cell × Engine :=
  let e := e.apply edits
  (e.affected (edits.map Prod.fst), e)

def update (e : Engine) (c : Cell) (v : Content) : List Cell × Engine := e.updateMany [(c, v)]

def context (e : Engine) (g : Grid) : Context := ⟨g, e.formulas, e.circular, e.options⟩

/-- The value to show in a cell. -/
def display (e : Engine) (g : Grid) (c : Cell) : Value := ((e.context g).cellValue c .start).1

def evaluate (e : Engine) (g : Grid) (text : String) (c : Cell) : Value :=
  ((e.context g).evaluate text c .start).1

end Engine

end Spreadsheet
