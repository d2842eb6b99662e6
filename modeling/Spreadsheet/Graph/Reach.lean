import Spreadsheet.Graph.Basic

/-!
The cells that can be reached along edges, by a breadth-first search. A search comes to an end
because it meets no cell for the first time twice, and a cell without an entry leads nowhere.
-/
namespace Spreadsheet

theorem compare_beq_eq (c d : Cell) : (compare c d == .eq) = (d == c) := by
  rw [Bool.eq_iff_iff, beq_iff_eq, beq_iff_eq, Std.LawfulEqCmp.compare_eq_iff_eq, eq_comm]

theorem CellSet.contains_insert (s : CellSet) (c d : Cell) :
    (s.insert c).contains d = (d == c || s.contains d) := by
  rw [Std.ExtTreeSet.contains_insert, compare_beq_eq]

theorem CellMap.contains_insert {β : Type} (m : CellMap β) (c : Cell) (b : β) (d : Cell) :
    (m.insert c b).contains d = (d == c || m.contains d) := by
  rw [Std.ExtTreeMap.contains_insert, compare_beq_eq]

namespace Graph

/-- The cells with an entry that a search has not met. -/
def unmet (m : CellMap CellSet) (met : Cell → Bool) : List Cell := m.keys.filter (!met ·)

section Unmet

variable {m : CellMap CellSet} {met met' : Cell → Bool} {c : Cell}

theorem unmet_eq_filter (h : ∀ d, met d → met' d) :
    unmet m met' = (unmet m met).filter (!met' ·) := by
  rw [unmet, unmet, List.filter_filter]
  apply List.filter_congr
  intro d _
  cases hd : met d with
  | false => simp
  | true => simp [h d hd]

theorem length_unmet_le (h : ∀ d, met d → met' d) :
    (unmet m met').length ≤ (unmet m met).length := by
  rw [unmet_eq_filter h]
  exact List.length_filter_le _ _

theorem length_unmet_lt (h : ∀ d, met d → met' d) (hm : c ∈ m) (hc : met c = false)
    (hc' : met' c = true) : (unmet m met').length < (unmet m met).length := by
  rw [unmet_eq_filter h]
  apply List.length_filter_lt_length_iff_exists.2
  exact ⟨c, List.mem_filter.2 ⟨Std.ExtTreeMap.mem_keys.2 hm, by simp [hc]⟩, by simp [hc']⟩

/-- What falls when a search meets a cell: the cells not met, or, where the cell has no entry, the
number. -/
theorem unmet_lex (h : ∀ d, met' d = (d == c || met d)) (hc : met c = false) {n n' : Nat}
    (hleaf : c ∉ m → n' < n) :
    Prod.Lex (· < ·) (· < ·) ((unmet m met').length, n') ((unmet m met).length, n) := by
  have hle (d : Cell) (hd : met d) : met' d := by rw [h, hd, Bool.or_true]
  by_cases hm : c ∈ m
  · exact .left _ _ (length_unmet_lt hle hm hc (by simp [h]))
  · exact .right' _ (length_unmet_le hle) (hleaf hm)

end Unmet

theorem directDependents_of_not_mem {g : Graph} {c : Cell} (h : c ∉ g.dependents) :
    g.directDependents c = [] := by
  rw [directDependents, Std.ExtTreeMap.getElem?_eq_none h]
  rfl

theorem precedentsOf_of_not_mem {g : Graph} {c : Cell} (h : c ∉ g.precedents) :
    g.precedentsOf c = [] := by
  rw [precedentsOf, Std.ExtTreeMap.getElem?_eq_none h]
  rfl

/-- Follow the edges from each cell of the queue that is not found yet. -/
def explore (g : Graph) (found : CellSet) : (queue : List Cell) → CellSet
  | [] => found
  | next :: queue =>
    if next ∈ found then explore g found queue
    else explore g (found.insert next) (queue ++ g.directDependents next)
termination_by queue => ((unmet g.dependents found.contains).length, queue.length)
decreasing_by
  · exact .right _ (Nat.lt_succ_self _)
  · rename_i hnew
    apply unmet_lex (found.contains_insert next) (Bool.eq_false_iff.2 hnew)
    intro h
    simp [directDependents_of_not_mem h]

/-- Every cell that reads `c`, directly or through others. It holds `c` itself only if `c` reads
itself through a cycle. -/
def dependentsOf (g : Graph) (c : Cell) : CellSet := explore g ∅ (g.directDependents c)

end Graph

end Spreadsheet
