import Spreadsheet.Proofs.Graph.Cycle
import Spreadsheet.Proofs.Graph.Incremental

/-!
The two maps of edges after any operations. Every operation leaves them mirror images without empty
entries, so that a cell has an entry only as long as an edge leaves it: a formula whose tokens cover
no cell, or are all too large, leaves its cell without one.
-/
namespace Spreadsheet.Graph

variable {g : Graph} {m : CellMap CellSet} {a b c : Cell} {text : Text} {limit : Nat}

/-- Where no entry is empty, a cell without an entry is one without edges. -/
theorem Compact.getElem?_eq_none_iff (h : Compact m) : m[c]? = none ↔ ∀ b, ¬Edge m c b := by
  constructor
  · intro hnone b
    exact not_edge_of_getElem? hnone
  · intro hedge
    cases hs : m[c]? with
    | none => rfl
    | some s =>
      have hempty : s = ∅ := by
        apply Std.ExtTreeSet.ext_mem
        intro b
        simpa [edge_iff_of_getElem? hs] using hedge b
      exact absurd (hempty ▸ hs) (h c)

theorem Tidy.precedentsOf?_eq_none_iff (h : g.Tidy) :
    g.precedentsOf? c = none ↔ g.precedentsOf c = [] := by
  rw [precedentsOf?, h.precedents.getElem?_eq_none_iff, List.eq_nil_iff_forall_not_mem]
  simp only [mem_precedentsOf, Reads]

theorem Tidy.dependents_eq_none_iff (h : g.Tidy) :
    g.dependents[c]? = none ↔ g.directDependents c = [] := by
  rw [h.dependents.getElem?_eq_none_iff, List.eq_nil_iff_forall_not_mem]
  simp only [mem_directDependents]

theorem Tidy.precedentsOf?_setFormula (h : g.Tidy) :
    (g.setFormula c text limit).precedentsOf? c = none ↔ ∀ b, ¬Tracks limit text b := by
  rw [precedentsOf?, (h.setFormula c text limit).precedents.getElem?_eq_none_iff]
  refine forall_congr' fun b => not_congr (reads_setFormula.trans ?_)
  simp

theorem Tidy.perform (h : g.Tidy) (op : Operation) : (g.perform op).Tidy := by
  cases op with
  | setFormula c text limit => exact h.setFormula c text limit
  | addEdge precedent dependent => exact h.addEdge precedent dependent
  | clearPrecedents c => exact h.clearPrecedents c
  | clear => exact tidy_empty

theorem tidy_ofOperations (ops : List Operation) : (ofOperations ops).Tidy := by
  refine List.foldlRecOn ops perform tidy_empty ?_
  intro g h op _
  exact h.perform op

/-- After any operations a cell is among the precedents of another if and only if the other is among
its direct dependents. Neither map has an empty entry, a cell without an entry is one without edges,
and setting a formula leaves no entry just where the formula tracks no cell. -/
theorem mem_precedentsOf_iff_mem_directDependents (ops : List Operation) :
    (∀ a b, b ∈ (ofOperations ops).precedentsOf a ↔ a ∈ (ofOperations ops).directDependents b) ∧
      (∀ c : Cell, (ofOperations ops).precedents[c]? ≠ some ∅ ∧
        (ofOperations ops).dependents[c]? ≠ some ∅) ∧
      (∀ c : Cell, ((ofOperations ops).precedentsOf? c = none ↔ (ofOperations ops).precedentsOf c = []) ∧
        ((ofOperations ops).dependents[c]? = none ↔ (ofOperations ops).directDependents c = [])) ∧
      ∀ c text limit, (ofOperations (ops ++ [.setFormula c text limit])).precedentsOf? c = none ↔
        ∀ b, ¬Tracks limit text b := by
  have h := tidy_ofOperations ops
  refine ⟨fun a b => ?_, fun c => ⟨h.precedents c, h.dependents c⟩,
    fun c => ⟨h.precedentsOf?_eq_none_iff, h.dependents_eq_none_iff⟩, fun c text limit => ?_⟩
  · rw [mem_precedentsOf, mem_directDependents]
    exact (h.mirrored a b).symm
  · have hlast : ofOperations (ops ++ [.setFormula c text limit]) =
        (ofOperations ops).setFormula c text limit := by
      rw [ofOperations, List.foldl_append]
      rfl
    rw [hlast]
    exact h.precedentsOf?_setFormula

/-- `B1` reads itself and `A1` by an edge that is set twice; then `B1` gets a formula whose range is
too large, and both maps are left without an entry. -/
example :
    let ops := [.addEdge ⟨0, 1⟩ ⟨0, 1⟩, .addEdge ⟨0, 0⟩ ⟨0, 1⟩, .addEdge ⟨0, 0⟩ ⟨0, 1⟩]
    (ofOperations ops).directDependents ⟨0, 0⟩ = [⟨0, 1⟩] ∧
      let g := ofOperations (ops ++ [.setFormula ⟨0, 1⟩ "=SUM(A1:A9)".toList 8])
      g.isEmpty = true ∧ g.dependents.isEmpty = true ∧ g.isPartial = true := by
  decide +kernel

end Spreadsheet.Graph
