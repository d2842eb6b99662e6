import Spreadsheet.Formula.Evaluate
import Spreadsheet.Formulas
import Spreadsheet.Grid

/-!
Evaluation against a sheet. A formula cell is computed once and its value remembered, an error
too. While it is computed it is pending: meeting it again is a cycle, and only so many cells may be
pending at once.
-/
namespace Spreadsheet

/-- What formulas are evaluated against. -/
structure Context where
  grid : Grid
  formulas : Formulas
  /-- The cells known to lie on a cycle. -/
  circular : CellSet
  options : Options

/-- The values computed so far, and the cells under computation, the latest first. -/
structure Progress where
  memo : CellMap Value
  pending : List Cell

namespace Progress

def start : Progress := ⟨∅, []⟩

def remember (p : Progress) (c : Cell) (v : Value) : Progress :=
  { p with memo := p.memo.insert c v }

def enter (p : Progress) (c : Cell) : Progress := { p with pending := c :: p.pending }

def leave (p : Progress) : Progress := { p with pending := p.pending.tail }

end Progress

/-- The value that a failed formula shows is its error. -/
def Value.ofOutcome : Except FormulaError Value → Value
  | .ok v => v
  | .error e => .error e.shown

namespace Context

variable (x : Context)

/-- A formula as if it stood in a cell, where `read` computes the cells it asks for. -/
def formulaWith (read : Cell → Progress → Value × Progress) (text : String) (c : Cell)
    (p : Progress) : Value × Progress :=
  if c ∈ x.circular then (.error .circular, p)
  else
    let (r, p) := (Formula.value x.options (Formula.body text.toList)).run x.grid.get read p
    (.ofOutcome r, p)

/-- The value of a cell while `room` more cells may become pending. -/
def valueWithin : (room : Nat) → Cell → Progress → Value × Progress
  | room, c, p =>
    match x.formulas.get? c with
    | none => (.ofContent (x.grid.get c), p)
    | some text =>
      match p.memo[c]? with
      | some v => (v, p)
      | none =>
        if c ∈ p.pending then (.error .circular, p.remember c (.error .circular))
        else
          match room with
          | 0 => (.error .failed, p.remember c (.error .failed))
          | room + 1 =>
            let (v, p) := x.formulaWith (valueWithin room) text c (p.enter c)
            (v, p.leave.remember c v)

/-- How many more cells may become pending. -/
def room (p : Progress) : Nat := x.options.maxDepth - p.pending.length

/-- The computed value of a cell: that of its formula, or else its content. -/
def cellValue (c : Cell) (p : Progress) : Value × Progress := x.valueWithin (x.room p) c p

/-- Answer a query. -/
def answer {α : Type} (q : Query α) (p : Progress) : Except FormulaError α × Progress :=
  q.run x.grid.get (x.valueWithin (x.room p)) p

/-- The value of a formula as if it stood in a cell. -/
def evaluate (text : String) (c : Cell) (p : Progress) : Value × Progress :=
  x.formulaWith (x.valueWithin (x.room p)) text c p

/-- The values of some cells, computed one after the other. -/
def cellValues : List Cell → Progress → List Value × Progress
  | [], p => ([], p)
  | c :: cs, p =>
    let (v, p) := x.cellValue c p
    let (vs, p) := cellValues cs p
    (v :: vs, p)

end Context

end Spreadsheet
