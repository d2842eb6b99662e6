import Spreadsheet.Graph.Reach

/-!
The order of recalculation: the changed cells and everything that reads them, each cell after the
cells that it reads as far as no cycle prevents it. The order is that of a depth-first search along
the dependents, in which a cell goes in front of all that it leads to.
-/
namespace Spreadsheet.Graph

/-- The cells entered, and the order of those left again. -/
structure Search where
  entered : CellSet
  order : List Cell

namespace Search

/-- The search before the cells that `c` leads to. -/
def enter (s : Search) (c : Cell) : Search := { s with entered := s.entered.insert c }

/-- The search after the cells that `c` leads to. -/
def leave (s : Search) (c : Cell) : Search := { s with order := c :: s.order }

/-- What the one search has entered, the other has entered. -/
def Within (s s' : Search) : Prop := ∀ d, s.entered.contains d → s'.entered.contains d

theorem within_enter (s : Search) (c : Cell) : s.Within (s.enter c) := by
  intro d hd
  rw [enter, CellSet.contains_insert, hd, Bool.or_true]

end Search

/-- Visit each of the cells that is not entered yet, with all that it leads to. -/
def visit (g : Graph) (s : Search) : (cells : List Cell) → { s' : Search // s.Within s' }
  | [] => ⟨s, fun _ => id⟩
  | c :: cells =>
    if c ∈ s.entered then visit g s cells
    else
      let inner := visit g (s.enter c) (g.directDependents c)
      have hin : s.Within inner.val := fun d hd => inner.property d (s.within_enter c d hd)
      let outer := visit g (inner.val.leave c) cells
      ⟨outer.val, fun d hd => outer.property d (hin d hd)⟩
termination_by cells => ((unmet g.dependents s.entered.contains).length, cells.length)
decreasing_by
  · exact .right _ (Nat.lt_succ_self _)
  · rename_i hnew
    apply unmet_lex (s.entered.contains_insert c) (Bool.eq_false_iff.2 hnew)
    intro h
    simp [directDependents_of_not_mem h]
  · exact .right' _ (length_unmet_le hin) (Nat.lt_succ_self _)

def recalcOrder (g : Graph) (changed : List Cell) : List Cell := (g.visit ⟨∅, []⟩ changed).val.order

end Spreadsheet.Graph
