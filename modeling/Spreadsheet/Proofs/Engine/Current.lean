import Spreadsheet.Proofs.Engine
import Spreadsheet.Proofs.Graph.Cycle

/-!
What an engine knows about its formulas. However it is used, its graph is that of the formulas, and
the cells that it takes to be circular are those on a cycle of the graph.
-/
namespace Spreadsheet.Engine

open Relation

variable {e : Engine} {a b c : Cell}

/-- The engines that loading grids, setting options and noting edits lead to. -/
inductive Reached : Engine → Prop where
  | empty (o : Options) : Reached (empty o)
  | load {e : Engine} (g : Grid) : Reached e → Reached (e.load g)
  | setOptions {e : Engine} (o : Options) : Reached e → Reached (e.setOptions o)
  | updateMany {e : Engine} (edits : List (Cell × Content)) :
    Reached e → Reached (e.updateMany edits).2

/-- The graph is that of the formulas, and the cells on its cycles are known. -/
structure Current (e : Engine) : Prop where
  graph_eq : e.graph = Graph.build e.formulas e.options.maxRangeCells
  circular_eq : e.circular = e.graph.circularCells

theorem current_rebuild (e : Engine) : e.rebuild.Current := ⟨rfl, rfl⟩

theorem current_empty (o : Options) : (empty o).Current where
  graph_eq := rfl
  circular_eq := by
    apply Std.ExtTreeSet.ext_mem
    intro c
    have hnone : ¬TransGen Graph.empty.Reads c c := fun h => by
      obtain ⟨d, hd, -⟩ := TransGen.head'_iff.1 h
      exact Graph.not_reads_empty hd
    simp [empty, Graph.mem_circularCells, hnone]

theorem Current.apply (h : e.Current) (edits : List (Cell × Content)) : (e.apply edits).Current := by
  rw [Engine.apply, foldl_record_eq]
  split
  · exact current_rebuild _
  · rename_i hn
    rw [foldl_record_of_not_anyAlters (Bool.not_eq_true _ ▸ hn)]
    exact h

theorem Reached.current (h : e.Reached) : e.Current := by
  induction h with
  | empty o => exact current_empty o
  | load g _ _ => exact current_rebuild _
  | setOptions o _ _ => exact current_rebuild _
  | updateMany edits _ ih => exact ih.apply edits

theorem Current.mirrored (h : e.Current) : e.graph.Mirrored := by
  rw [h.graph_eq]
  exact Graph.mirrored_build _ _

theorem Current.reads_iff (h : e.Current) : e.graph.Reads a b ↔ ∃ text,
    e.formulas.get? a = some text ∧ Graph.Tracks e.options.maxRangeCells text.toList b := by
  rw [h.graph_eq]
  exact Graph.reads_build _

theorem Current.mem_circular (h : e.Current) : c ∈ e.circular ↔ TransGen e.graph.Reads c c := by
  rw [h.circular_eq]
  exact Graph.mem_circularCells

end Spreadsheet.Engine
