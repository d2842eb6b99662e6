import Spreadsheet.Proofs.Graph.Tarjan

/-!
Graphs that operations have built from the empty one. The two maps of edges stay mirror images. Main
statement: after any operations, the circular cells are those with a path back to themselves, and
these are the cells among their own dependents.
-/
namespace Spreadsheet.Graph

open Relation

variable {g : Graph} {a b c d : Cell}

theorem Mirrored.edge_dependents (hg : g.Mirrored) :
    Edge g.dependents = Function.swap g.Reads := by
  funext b a
  exact propext (hg a b)

theorem reaches_dependents (hg : g.Mirrored) :
    ReflTransGen (Edge g.dependents) a b ↔ ReflTransGen g.Reads b a := by
  rw [hg.edge_dependents, reflTransGen_swap]

/-- A change of a graph. -/
inductive Operation where
  | setFormula (c : Cell) (text : Text) (limit : Nat)
  | addEdge (precedent dependent : Cell)
  | clearPrecedents (c : Cell)
  | clear

def perform (g : Graph) : Operation → Graph
  | .setFormula c text limit => g.setFormula c text limit
  | .addEdge precedent dependent => g.addEdge precedent dependent
  | .clearPrecedents c => g.clearPrecedents c
  | .clear => empty

/-- The graph after some changes of the empty one. -/
def ofOperations (ops : List Operation) : Graph := ops.foldl perform empty

theorem Mirrored.perform (hg : g.Mirrored) (op : Operation) : (g.perform op).Mirrored := by
  cases op with
  | setFormula c text limit => exact hg.setFormula c text limit
  | addEdge precedent dependent => exact hg.addEdge precedent dependent
  | clearPrecedents c => exact hg.clearPrecedents c
  | clear => exact mirrored_empty

theorem mirrored_ofOperations (ops : List Operation) : (ofOperations ops).Mirrored := by
  refine List.foldlRecOn ops perform mirrored_empty ?_
  intro g h op _
  exact h.perform op

/-- A cell is circular if and only if a path of at least one edge leads from it back to it, and so
if and only if it is among its own dependents. -/
theorem mem_circularCells_iff_mem_dependentsOf (ops : List Operation) (c : Cell) :
    (c ∈ (ofOperations ops).circularCells ↔ TransGen (ofOperations ops).Reads c c) ∧
      (TransGen (ofOperations ops).Reads c c ↔ c ∈ (ofOperations ops).dependentsOf c) := by
  have hg := mirrored_ofOperations ops
  refine ⟨mem_circularCells, ?_⟩
  rw [mem_dependentsOf, hg.edge_dependents, transGen_swap]

end Spreadsheet.Graph
