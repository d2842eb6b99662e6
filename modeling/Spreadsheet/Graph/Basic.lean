import Spreadsheet.Formula.Scan
import Spreadsheet.Formulas

/-!
Which cells a formula reads. Every formula cell has its precedents, the cells its tokens cover;
the dependents of a cell are the formula cells that read it. A cell without edges has no entry. A
range beyond the limit is left out, and its formula cell is noted as skipped.
-/
namespace Spreadsheet

@[ext]
structure Graph where
  precedents : CellMap CellSet
  dependents : CellMap CellSet
  skipped : CellSet

namespace Graph

/-- The set with one more cell, where no entry stands for the empty set. -/
def withCell (c : Cell) (s : Option CellSet) : Option CellSet := some ((s.getD ∅).insert c)

/-- The set without a cell, where no entry stands for the empty set. -/
def withoutCell (c : Cell) (s : Option CellSet) : Option CellSet :=
  (s.map (·.erase c)).filter (!·.isEmpty)

def empty : Graph := ⟨∅, ∅, ∅⟩

/-- The edge that says that `dependent` reads `precedent`. -/
def addEdge (g : Graph) (precedent dependent : Cell) : Graph :=
  { g with
    precedents := g.precedents.alter dependent (withCell precedent)
    dependents := g.dependents.alter precedent (withCell dependent) }

def precedentsOf? (g : Graph) (c : Cell) : Option CellSet := g.precedents[c]?

def precedentsOf (g : Graph) (c : Cell) : List Cell := (g.precedents[c]?.getD ∅).toList

/-- The cells that read a cell directly, in order. -/
def directDependents (g : Graph) (c : Cell) : List Cell := (g.dependents[c]?.getD ∅).toList

/-- Forget what a cell reads. -/
def clearPrecedents (g : Graph) (c : Cell) : Graph where
  precedents := g.precedents.erase c
  dependents := (g.precedentsOf c).foldl (fun d p => d.alter p (withoutCell c)) g.dependents
  skipped := g.skipped.erase c

/-- The edges of one token of a cell's formula. -/
def addToken (limit : Nat) (c : Cell) (g : Graph) (k : Formula.Token) : Graph :=
  if limit < k.area.cellCount then { g with skipped := g.skipped.insert c }
  else k.area.cells.foldl (fun g p => g.addEdge p c) g

def setFormula (g : Graph) (c : Cell) (text : Text) (limit : Nat) : Graph :=
  (Formula.tokens text).foldl (addToken limit c) (g.clearPrecedents c)

def ofEntries (entries : List (Cell × String)) (limit : Nat) : Graph :=
  entries.foldl (fun g e => g.setFormula e.1 e.2.toList limit) empty

def build (f : Formulas) (limit : Nat) : Graph := ofEntries f.entries limit

/-- Whether some range was left out. -/
def isPartial (g : Graph) : Bool := !g.skipped.isEmpty

/-- How many cells read another. -/
def size (g : Graph) : Nat := g.precedents.size

def edgeCount (g : Graph) : Nat := g.precedents.foldl (fun n _ s => n + s.size) 0

def isEmpty (g : Graph) : Bool := g.precedents.isEmpty

end Graph

end Spreadsheet
