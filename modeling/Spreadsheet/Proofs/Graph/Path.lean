import Mathlib.Logic.Relation
import Spreadsheet.Graph.Reach

/-!
Paths along a map of edges, and the search that follows them. What a search has found leads to cells
that it has found or into its queue. So it finds exactly the cells to which a path leads, and the
dependents of a cell are the ends of the paths that leave it.
-/
namespace Spreadsheet

theorem CellSet.mem_insert {s : CellSet} {a c : Cell} : a ∈ s.insert c ↔ a = c ∨ a ∈ s := by
  rw [Std.ExtTreeSet.mem_insert, Std.LawfulEqCmp.compare_eq_iff_eq, eq_comm]

theorem CellSet.mem_erase {s : CellSet} {a c : Cell} : a ∈ s.erase c ↔ a ≠ c ∧ a ∈ s := by
  rw [Std.ExtTreeSet.mem_erase, ne_eq, Std.LawfulEqCmp.compare_eq_iff_eq, eq_comm]

namespace Graph

open Relation

variable {m : CellMap CellSet} {a b c d : Cell} {s t : CellSet}

/-- The entry of `a` holds `b`. -/
def Edge (m : CellMap CellSet) (a b : Cell) : Prop := ∃ s, m[a]? = some s ∧ b ∈ s

/-- A path, possibly empty, leads from one of the cells to `d`. -/
def Leads (m : CellMap CellSet) (cells : List Cell) (d : Cell) : Prop :=
  ∃ c ∈ cells, ReflTransGen (Edge m) c d

theorem edge_iff_of_getElem? (h : m[a]? = some s) : Edge m a b ↔ b ∈ s := by
  constructor
  · rintro ⟨t, ht, hb⟩
    rw [h] at ht
    cases ht
    exact hb
  · intro hb
    exact ⟨s, h, hb⟩

theorem not_edge_of_getElem? (h : m[a]? = none) : ¬Edge m a b := by
  rintro ⟨t, ht, -⟩
  rw [h] at ht
  cases ht

theorem edge_iff_mem_getD : Edge m a b ↔ b ∈ (m[a]?.getD ∅) := by
  cases h : m[a]? with
  | none => simp [not_edge_of_getElem? h]
  | some s => simp [edge_iff_of_getElem? h]

theorem edge_erase : Edge (m.erase c) a b ↔ a ≠ c ∧ Edge m a b := by
  by_cases hac : a = c
  · subst a
    simp [Edge]
  · simp [Edge, Std.ExtTreeMap.getElem?_erase, hac, Ne.symm hac]

@[simp] theorem leads_nil : ¬Leads m [] d := by simp [Leads]

theorem leads_cons {cs : List Cell} :
    Leads m (c :: cs) d ↔ ReflTransGen (Edge m) c d ∨ Leads m cs d := by
  simp [Leads]

theorem leads_append {cs ds : List Cell} : Leads m (cs ++ ds) d ↔ Leads m cs d ∨ Leads m ds d := by
  simp only [Leads, List.mem_append, or_and_right, exists_or]

theorem leads_of_mem {cs : List Cell} (h : c ∈ cs) : Leads m cs c := ⟨c, h, .refl⟩

theorem mem_directDependents {g : Graph} : a ∈ g.directDependents b ↔ Edge g.dependents b a := by
  rw [directDependents, Std.ExtTreeSet.mem_toList, edge_iff_mem_getD]

theorem reaches_iff_leads {g : Graph} :
    ReflTransGen (Edge g.dependents) c d ↔ d = c ∨ Leads g.dependents (g.directDependents c) d := by
  rw [ReflTransGen.cases_head_iff, eq_comm]
  simp only [Leads, mem_directDependents]

/-- Each edge of a found cell leads to a found cell or into the queue. -/
def Follows (m : CellMap CellSet) (found : CellSet) (queue : List Cell) : Prop :=
  ∀ a ∈ found, ∀ b, Edge m a b → b ∈ found ∨ b ∈ queue

theorem Follows.mem_or_leads {queue : List Cell} (h : Follows m s queue) (ha : a ∈ s)
    (p : ReflTransGen (Edge m) a d) : d ∈ s ∨ Leads m queue d := by
  induction p with
  | refl => exact .inl ha
  | tail _ hbd ih =>
    rcases ih with hb | ⟨e, he, q⟩
    · exact (h _ hb _ hbd).imp_right leads_of_mem
    · exact .inr ⟨e, he, q.tail hbd⟩

theorem Follows.tail {queue : List Cell} (h : Follows m s (c :: queue)) (hc : c ∈ s) :
    Follows m s queue := by
  intro a ha b hab
  rcases h a ha b hab with hb | hb
  · exact .inl hb
  · rcases List.mem_cons.1 hb with rfl | hb
    · exact .inl hc
    · exact .inr hb

theorem Follows.insert {g : Graph} {queue : List Cell} (h : Follows g.dependents s (c :: queue)) :
    Follows g.dependents (s.insert c) (queue ++ g.directDependents c) := by
  intro a ha b hab
  rw [CellSet.mem_insert, List.mem_append, mem_directDependents]
  rcases CellSet.mem_insert.1 ha with rfl | ha
  · exact .inr (.inr hab)
  · have hb := h a ha b hab
    rw [List.mem_cons] at hb
    grind

theorem mem_explore {g : Graph} {found : CellSet} {queue : List Cell}
    (h : Follows g.dependents found queue) :
    d ∈ explore g found queue ↔ d ∈ found ∨ Leads g.dependents queue d := by
  fun_induction explore g found queue with
  | case1 => simp
  | case2 found c queue hc ih =>
    rw [ih (h.tail hc), leads_cons]
    constructor
    · exact Or.imp_right .inr
    · rintro (hd | p | hl)
      · exact .inl hd
      · exact (h.tail hc).mem_or_leads hc p
      · exact .inr hl
  | case3 found c queue hc ih =>
    rw [ih h.insert, CellSet.mem_insert, leads_cons, leads_append, reaches_iff_leads]
    grind

/-- The dependents of a cell are the ends of the paths of at least one edge that leave it. -/
theorem mem_dependentsOf (g : Graph) : d ∈ g.dependentsOf c ↔ TransGen (Edge g.dependents) c d := by
  have hstart : Follows g.dependents ∅ (g.directDependents c) := by simp [Follows]
  rw [dependentsOf, mem_explore hstart, TransGen.head'_iff]
  simp only [Std.ExtTreeSet.not_mem_empty, false_or, Leads, mem_directDependents]

end Graph

end Spreadsheet
