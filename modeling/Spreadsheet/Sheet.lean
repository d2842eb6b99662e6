import Spreadsheet.Engine
import Spreadsheet.Formula.Shift
import Spreadsheet.SheetError
import Spreadsheet.Style

/-!
A grid with its engine, the styles of its cells, and those who are told which cells to show again.
A paste reads every source cell before it writes any target, moves the formulas along, and either
succeeds as a whole or changes nothing.
-/
namespace Spreadsheet

structure Sheet where
  grid : Grid
  engine : Engine
  /-- A cell without an entry has the standard style. -/
  styles : CellMap Style
  /-- What each subscriber has been told, the earliest first. -/
  inboxes : List (List (List Cell))

/-- A rectangle as a user selects it, from the anchor to the opposite corner. -/
structure Selection where
  anchor : Cell
  corner : Cell

def Selection.range (s : Selection) : Range := .ofCorners s.anchor s.corner

/-- What is shown of a selection: the anchor's content, and the numbers among its values. -/
structure Summary where
  anchor : Cell
  content : Content
  formula : Option String
  count : Nat
  sum : Float
  average : Option Float

namespace Sheet

def ofGrid (g : Grid) (o : Options) : Sheet := ⟨g, (Engine.empty o).load g, ∅, []⟩

def subscribe (s : Sheet) : Sheet := { s with inboxes := s.inboxes ++ [[]] }

/-- Tell every subscriber which cells to show again, if there are any. -/
def notify (s : Sheet) (cells : List Cell) : Sheet :=
  if cells = [] then s else { s with inboxes := s.inboxes.map (· ++ [cells]) }

/-- Take note of edits that the grid holds already. -/
def noteEdits (s : Sheet) (edits : List (Cell × Content)) : List Cell × Sheet :=
  let (cells, engine) := s.engine.updateMany edits
  (cells, { s with engine }.notify cells)

def noteEdit (s : Sheet) (c : Cell) (v : Content) : List Cell × Sheet := s.noteEdits [(c, v)]

/-- Write to the grid without taking note of it. -/
def write (s : Sheet) (edits : List (Cell × Content)) : Sheet :=
  { s with grid := edits.foldl (fun g (c, v) => g.set c v) s.grid }

def setValue (s : Sheet) (c : Cell) (v : Content) : List Cell × Sheet :=
  (s.write [(c, v)]).noteEdit c v

/-- Content as it reads after a move from one cell to another. -/
def moved (source target : Cell) : Content → Content
  | .text t =>
    if Content.isFormulaText t then
      .text (String.ofList (Formula.copy t.toList source target))
    else .text t
  | v => v

/-- The writes of a paste, none if a target lies off the grid. -/
def pasteEdits? (s : Sheet) (rows cols : Int) : List Cell → Option (List (Cell × Content))
  | [] => some []
  | c :: cs => do
    let target ← c.offset? rows cols
    return (target, moved c target (s.grid.get c)) :: (← s.pasteEdits? rows cols cs)

/-- Copy a range so that its top left cell lands on `target`. A refusal leaves the sheet as it then
is. -/
def pasting (source : Range) (target : Cell) : ExceptT SheetError (StateM Sheet) (List Cell) := do
  let s ← get
  let limit := s.engine.options.maxRangeCells
  if limit < source.cellCount then throw (.pasteTooLarge source limit)
  let rows := (target.row.toNat : Int) - source.start.row.toNat
  let cols := (target.col.toNat : Int) - source.start.col.toNat
  match s.pasteEdits? rows cols source.cells with
  | none => throw (.pasteOffGrid source target)
  | some edits =>
    modify (·.write edits)
    modifyGet (·.noteEdits edits)

/-- What a paste answers, and the sheet that it leaves. -/
def runPaste (s : Sheet) (source : Range) (target : Cell) : Except SheetError (List Cell) × Sheet :=
  (pasting source target).run.run s

def paste (s : Sheet) (source : Range) (target : Cell) : Except SheetError (List Cell × Sheet) :=
  let (answer, s) := s.runPaste source target
  answer.map (·, s)

def display (s : Sheet) (c : Cell) : Value := s.engine.display s.grid c

def evaluate (s : Sheet) (text : String) (c : Cell) : Value := s.engine.evaluate s.grid text c

def rowValues (x : Context) (cols : List UInt32) :
    List UInt32 → Progress → List (List Value) × Progress
  | [], p => ([], p)
  | row :: rows, p =>
    let (vs, p) := x.cellValues (cols.map (⟨row, ·⟩)) p
    let (vss, p) := rowValues x cols rows p
    (vs :: vss, p)

/-- The values of the used range, row by row. -/
def displayAll (s : Sheet) : List (List Value) :=
  match s.grid.usedRange? with
  | none => []
  | some r => (rowValues (s.engine.context s.grid) r.cols r.rows .start).1

/-- The values of a range that is not too large to visit. -/
def rangeValues (s : Sheet) (r : Range) : List Value :=
  if r.cellCount ≤ s.engine.options.maxRangeCells then
    ((s.engine.context s.grid).cellValues r.cells .start).1
  else []

def summary (s : Sheet) (selection : Selection) : Summary :=
  let content := s.grid.get selection.anchor
  let numbers := (s.rangeValues selection.range).filterMap Value.number?
  let sum := numbers.foldl (· + ·) 0
  { anchor := selection.anchor
    content
    formula := content.formula?
    count := numbers.length
    sum
    average := if numbers = [] then none else some (sum / Float.ofNat numbers.length) }

def styleAt (s : Sheet) (c : Cell) : Style := s.styles[c]?.getD .standard

def setStyle (s : Sheet) (c : Cell) (style : Style) : Sheet :=
  { s with
    styles := if style.isStandard then s.styles.erase c else s.styles.insert c style }

/-- Change the style of every cell of a range. -/
def applyStyle (s : Sheet) (r : Range) (f : Style → Style) : Sheet :=
  r.cells.foldl (fun s c => s.setStyle c (f (s.styleAt c))) s

def styledCount (s : Sheet) : Nat := s.styles.size

end Sheet

end Spreadsheet
