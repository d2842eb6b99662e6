import Mathlib.Data.List.Basic
import Spreadsheet.Proofs.Graph.Cycle
import Spreadsheet.Proofs.Graph.Order

/-!
The order of recalculation seen from the formulas: which cells it lists, and which come first. The
search runs along the dependents, and in a graph that operations have built these are the reading
edges turned round. Main statement: the changed cells and all that read them stand in the order once
each, and a cell stands before those that read it unless it reads them back.
-/
namespace Spreadsheet.Graph

open Relation

variable {g : Graph} {changed : List Cell} {x y d : Cell}

theorem mem_recalcOrder (hg : g.Mirrored) :
    d ∈ g.recalcOrder changed ↔ ∃ c ∈ changed, ReflTransGen g.Reads d c := by
  rw [(ordering_recalcOrder g changed).mem_iff]
  simp only [Leads, reaches_dependents hg]

/-- A listed cell comes before each that reads it directly and that it does not lead back to. -/
theorem idxOf_lt_of_edge {m : CellMap CellSet} {cells order : List Cell}
    (h : Ordering m cells order) (hx : x ∈ order) (hy : y ∈ order) (hxy : Edge m x y)
    (hback : ¬ReflTransGen (Edge m) y x) : order.idxOf x < order.idxOf y := by
  obtain ⟨pre, post, hsplit⟩ := List.append_of_mem hy
  have hpost : x ∉ post := fun hx => hback (h.returns pre y post x hsplit hx hxy)
  have hne : x ≠ y := by
    rintro rfl
    exact hback .refl
  have hpre : x ∈ pre := by simpa [hsplit, hne, hpost] using hx
  have hfirst : y ∉ pre := fun hy => by
    have hdisjoint := (List.nodup_append.1 (hsplit ▸ h.nodup)).2.2 y hy y List.mem_cons_self
    exact hdisjoint rfl
  rw [hsplit, List.idxOf_append_of_mem hpre, List.idxOf_append_of_notMem hfirst,
    List.idxOf_cons_self, Nat.add_zero]
  exact List.idxOf_lt_length_of_mem hpre

/-- After any operations the order lists without repetition the changed cells and all that read one
of them, directly or through others. Of two listed cells the one that is read comes first, unless it
reads the other one back. -/
theorem recalcOrder_ofOperations (ops : List Operation) (changed : List Cell) :
    ((ofOperations ops).recalcOrder changed).Nodup ∧
      (∀ d, d ∈ (ofOperations ops).recalcOrder changed ↔
        d ∈ changed ∨ ∃ c ∈ changed, TransGen (ofOperations ops).Reads d c) ∧
      ∀ x y, (ofOperations ops).Reads y x → x ∈ (ofOperations ops).recalcOrder changed →
        y ∈ (ofOperations ops).recalcOrder changed → ¬TransGen (ofOperations ops).Reads x y →
        ((ofOperations ops).recalcOrder changed).idxOf x <
          ((ofOperations ops).recalcOrder changed).idxOf y := by
  have hg := mirrored_ofOperations ops
  generalize ofOperations ops = g at hg
  have horder := ordering_recalcOrder g changed
  refine ⟨horder.nodup, fun d => ?_, fun x y hxy hx hy hback => ?_⟩
  · rw [mem_recalcOrder hg]
    constructor
    · rintro ⟨c, hc, p⟩
      rcases reflTransGen_iff_eq_or_transGen.1 p with rfl | p
      · exact .inl hc
      · exact .inr ⟨c, hc, p⟩
    · rintro (hd | ⟨c, hc, p⟩)
      · exact ⟨d, hd, .refl⟩
      · exact ⟨c, hc, p.to_reflTransGen⟩
  · refine idxOf_lt_of_edge horder hx hy ((hg y x).2 hxy) fun p => ?_
    rcases reflTransGen_iff_eq_or_transGen.1 ((reaches_dependents hg).1 p) with rfl | p
    · exact hback (.single hxy)
    · exact hback p

/-- `B1` and `C1` read each other, and `B1` reads `A1`, which comes first although it is listed
last among the changed cells. -/
theorem recalcOrder_ofOperations_cycle :
    let ops := [.addEdge ⟨0, 2⟩ ⟨0, 1⟩, .addEdge ⟨0, 1⟩ ⟨0, 2⟩, .addEdge ⟨0, 0⟩ ⟨0, 1⟩]
    let order := (ofOperations ops).recalcOrder [⟨0, 2⟩, ⟨0, 2⟩, ⟨0, 0⟩]
    order.idxOf ⟨0, 0⟩ < order.idxOf ⟨0, 1⟩ := by
  intro ops order
  have hreads : ∀ a b, (ofOperations ops).Reads a b ↔ a = ⟨0, 1⟩ ∧ b = ⟨0, 0⟩ ∨
      a = ⟨0, 2⟩ ∧ b = ⟨0, 1⟩ ∨ a = ⟨0, 1⟩ ∧ b = ⟨0, 2⟩ := by
    simp [ops, ofOperations, perform, reads_addEdge]
  have hback : ¬TransGen (ofOperations ops).Reads ⟨0, 0⟩ ⟨0, 1⟩ := by
    intro p
    obtain ⟨e, he, -⟩ := TransGen.head'_iff.1 p
    simp [hreads] at he
  have hedge : (ofOperations ops).Reads ⟨0, 1⟩ ⟨0, 0⟩ := (hreads _ _).2 (.inl ⟨rfl, rfl⟩)
  obtain ⟨-, hmem, hbefore⟩ :=
    recalcOrder_ofOperations ops [⟨0, 2⟩, ⟨0, 2⟩, ⟨0, 0⟩]
  exact hbefore ⟨0, 0⟩ ⟨0, 1⟩ hedge ((hmem _).2 (.inl (by simp)))
    ((hmem _).2 (.inr ⟨⟨0, 0⟩, by simp, .single hedge⟩)) hback

end Spreadsheet.Graph
