import Spreadsheet.Proofs.Context
import Spreadsheet.Proofs.Engine.Current
import Spreadsheet.Proofs.Graph.Order
import Spreadsheet.Proofs.Sheet.Run

/-!
The cells to show again after an edit. A cell that is not among them shows what it showed before:
no path of formulas leads from the edited cell to it, so nothing that its value is computed from has
changed, nor which of the cells behind it lie on a cycle. While a range is left out of the graph all
formula cells are shown again, and the others hold their values themselves.
-/
namespace Spreadsheet.Sheet

open Relation Spreadsheet.Graph
open Formula (Covers callsApart)

variable {s : Sheet} {a b c d e : Cell} {v : Content} {o : Options} {text : String}

/-- A path that starts in a set which no edge leaves stays there, and so it is one of any relation
with the same edges in the set. -/
theorem transGen_of_closed {R R' : Cell → Cell → Prop} {U : Cell → Prop}
    (h : ∀ a b, U a → R a b → R' a b ∧ U b) (ha : U a) (hab : TransGen R a b) :
    TransGen R' a b ∧ U b := by
  induction hab with
  | single hb =>
    obtain ⟨hb, hU⟩ := h _ _ ha hb
    exact ⟨.single hb, hU⟩
  | tail _ hbc ih =>
    obtain ⟨hb, hU⟩ := ih
    obtain ⟨hc, hU⟩ := h _ _ hU hbc
    exact ⟨hb.tail hc, hU⟩

namespace Synced

variable (h : s.Synced o)

include h

theorem options_eq : s.engine.options = o := by
  rw [h.engine_eq]
  rfl

theorem formulas_eq : s.engine.formulas = Engine.formulasOf s.grid := by
  rw [h.engine_eq]
  rfl

theorem current : s.engine.Current := by
  rw [h.engine_eq]
  exact Engine.current_rebuild _

theorem graph_eq : s.engine.graph = Graph.build s.engine.formulas o.maxRangeCells :=
  h.options_eq ▸ h.current.graph_eq

theorem get?_formulas (d : Cell) : s.engine.formulas.get? d = (s.grid.get d).formula? := by
  rw [h.formulas_eq]
  exact Engine.get?_formulasOf h.bounded d

theorem mirrored : s.engine.graph.Mirrored := h.current.mirrored

theorem reads_iff : s.engine.graph.Reads a b ↔
    ∃ text, s.engine.formulas.get? a = some text ∧ Tracks o.maxRangeCells text.toList b :=
  h.options_eq ▸ h.current.reads_iff

theorem mem_circular : d ∈ s.engine.circular ↔ TransGen s.engine.graph.Reads d d :=
  h.current.mem_circular

theorem not_skips (hpartial : s.engine.graph.isPartial = false)
    (htext : s.engine.formulas.get? d = some text) : ¬Skips o.maxRangeCells text.toList := by
  intro hskips
  have hmem : d ∈ s.engine.graph.skipped := by
    rw [h.graph_eq]
    exact (mem_skipped_build _).2 ⟨text, htext, hskips⟩
  have hempty : s.engine.graph.skipped.isEmpty = true := by simpa [isPartial] using hpartial
  rw [Std.ExtTreeSet.isEmpty_iff] at hempty
  rw [hempty] at hmem
  exact Std.ExtTreeSet.not_mem_empty hmem

/-- With nothing left out of the graph, every cell that a formula mentions is tracked. -/
theorem tracks_of_covers (hpartial : s.engine.graph.isPartial = false)
    (htext : s.engine.formulas.get? d = some text) (hb : Covers text.toList b) :
    Tracks o.maxRangeCells text.toList b := by
  obtain ⟨k, hk, hb⟩ := hb
  refine ⟨k, hk, Nat.le_of_not_lt fun hlimit => ?_, hb⟩
  exact h.not_skips hpartial htext ⟨k, hk, hlimit⟩

end Synced

section Edit

theorem get_setValue (hd : d ≠ c) : (s.setValue c v).2.grid.get d = s.grid.get d := by
  rw [grid_setValue, Grid.get_set, if_neg (Ne.symm hd)]

theorem get?_setValue (h : s.Synced o) (h' : (s.setValue c v).2.Synced o) (hd : d ≠ c) :
    (s.setValue c v).2.engine.formulas.get? d = s.engine.formulas.get? d := by
  rw [h'.get?_formulas, h.get?_formulas, get_setValue hd]

theorem display_of_get?_eq_none (hd : s.engine.formulas.get? d = none) :
    s.display d = .ofContent (s.grid.get d) := by
  unfold display Engine.display Context.cellValue Context.valueWithin
  simp only [Engine.context, hd]

/-- No path leads from the edited cell to this one. -/
def Clear (s : Sheet) (c d : Cell) : Prop := ¬ReflTransGen (Edge s.engine.graph.dependents) c d

variable (h : s.Synced o) (h' : (s.setValue c v).2.Synced o)

theorem Clear.ne (hd : Clear s c d) : d ≠ c := by
  rintro rfl
  exact hd .refl

theorem Clear.of_reads (h : s.Synced o) (ha : Clear s c a) (hab : s.engine.graph.Reads a b) :
    Clear s c b := fun hb => ha (hb.tail ((h.mirrored a b).2 hab))

include h h' in
theorem reads_setValue_iff (ha : a ≠ c) :
    (s.setValue c v).2.engine.graph.Reads a b ↔ s.engine.graph.Reads a b := by
  rw [h'.reads_iff, h.reads_iff, get?_setValue h h' ha]

include h h' in
theorem mem_circular_setValue_iff (hd : Clear (s.setValue c v).2 c d) :
    d ∈ (s.setValue c v).2.engine.circular ↔ d ∈ s.engine.circular := by
  rw [h'.mem_circular, h.mem_circular]
  constructor
  · intro hpath
    refine (transGen_of_closed (fun a b ha hab => ?_) hd hpath).1
    exact ⟨(reads_setValue_iff h h' ha.ne).1 hab, ha.of_reads h' hab⟩
  · intro hpath
    refine (transGen_of_closed (fun a b ha hab => ?_) hd hpath).1
    have hab' := (reads_setValue_iff h h' ha.ne).2 hab
    exact ⟨hab', ha.of_reads h' hab'⟩

include h h' in
theorem agreeOn_setValue : Context.AgreeOn (Clear (s.setValue c v).2 c)
    ((s.setValue c v).2.engine.context (s.setValue c v).2.grid) (s.engine.context s.grid) where
  options := h'.options_eq.trans h.options_eq.symm
  formulas _ hd := get?_setValue h h' hd.ne
  grid _ hd := get_setValue hd.ne
  circular _ hd := mem_circular_setValue_iff h h' hd

include h' in
theorem closed_setValue (hpartial : (s.setValue c v).2.engine.graph.isPartial = false)
    (hcalls : ∀ d text, d ≠ c → (s.setValue c v).2.engine.formulas.get? d = some text →
      callsApart text.toList = true) :
    Context.Closed (Clear (s.setValue c v).2 c)
      ((s.setValue c v).2.engine.context (s.setValue c v).2.grid) where
  apart d text hd htext := hcalls d text hd.ne htext
  inside d text hd htext b hb := by
    have htracks := h'.tracks_of_covers hpartial htext hb
    exact Clear.of_reads h' hd (h'.reads_iff.2 ⟨text, htext, htracks⟩)

end Edit

theorem not_mem_affected_of_partial {e : Engine} (hpartial : e.graph.isPartial = true)
    (hd : d ∉ e.affected [c]) : d ≠ c ∧ e.formulas.get? d = none := by
  rw [Engine.affected, if_pos hpartial, List.mem_eraseDups, List.mem_append, not_or] at hd
  obtain ⟨hc, hcells⟩ := hd
  rw [Formulas.cells, Std.ExtTreeMap.mem_keys] at hcells
  exact ⟨fun hdc => hc (List.mem_singleton.2 hdc), Std.ExtTreeMap.getElem?_eq_none hcells⟩

theorem not_leads_of_not_mem_affected {e : Engine} (hpartial : e.graph.isPartial = false)
    (hd : d ∉ e.affected [c]) : ¬ReflTransGen (Edge e.graph.dependents) c d := by
  intro hpath
  rw [Engine.affected, hpartial, if_neg Bool.false_ne_true,
    (ordering_recalcOrder _ _).mem_iff] at hd
  exact hd ⟨c, List.mem_singleton_self c, hpath⟩

/-- An edit of a cell that no formula mentions concerns that cell alone. -/
theorem Synced.not_mem_affected_of_unread (h : s.Synced o)
    (hsmall : ∀ e text, s.engine.formulas.get? e = some text → ¬Skips o.maxRangeCells text.toList)
    (hunread : ∀ e text, s.engine.formulas.get? e = some text → ¬Covers text.toList c)
    (hd : d ≠ c) : d ∉ s.engine.affected [c] := by
  have hpartial : s.engine.graph.isPartial = false := by
    rw [isPartial, Bool.not_eq_false', Std.ExtTreeSet.isEmpty_iff, h.graph_eq]
    refine Std.ExtTreeSet.ext_mem fun e => ?_
    simp only [Std.ExtTreeSet.not_mem_empty, iff_false, mem_skipped_build, not_exists, not_and]
    exact hsmall e
  rw [Engine.affected, hpartial, if_neg Bool.false_ne_true, (ordering_recalcOrder _ _).mem_iff]
  rintro ⟨b, hb, hpath⟩
  obtain rfl := List.mem_singleton.1 hb
  rcases hpath.cases_head with rfl | ⟨e, he, -⟩
  · exact hd rfl
  · obtain ⟨text, htext, k, hk, -, hb⟩ := h.reads_iff.1 ((h.mirrored e b).1 he)
    exact hunread e text htext ⟨k, hk, hb⟩

/-- After any run of edits and pastes, an edit changes what no cell shows but those it returns, as
long as the calls in the formulas stand apart from references around them. -/
theorem display_setValue_of_not_mem {g : Grid} (hg : g.Built) (o : Options)
    (hrun : Run (ofGrid g o) s) (hc : c.Inner) (v : Content)
    (hcalls : ∀ e text, s.engine.formulas.get? e = some text → callsApart text.toList = true)
    (hd : d ∉ (s.setValue c v).1) : (s.setValue c v).2.display d = s.display d := by
  have h : s.Synced o := (synced_ofGrid hg o).run hrun
  have h' : (s.setValue c v).2.Synced o := h.setValue hc v
  rw [cells_setValue] at hd
  cases hpartial : (s.setValue c v).2.engine.graph.isPartial with
  | true =>
    obtain ⟨hne, hnone⟩ := not_mem_affected_of_partial hpartial hd
    have hnone' := (get?_setValue h h' hne).symm.trans hnone
    rw [display_of_get?_eq_none hnone, display_of_get?_eq_none hnone', get_setValue hne]
  | false =>
    have hclear : Clear (s.setValue c v).2 c d := not_leads_of_not_mem_affected hpartial hd
    have hclosed := closed_setValue h' hpartial fun e text he htext =>
      hcalls e text ((get?_setValue h h' he).symm.trans htext)
    have hagree := agreeOn_setValue h h'
    unfold display Engine.display Context.cellValue
    rw [hagree.valueWithin_eq hclosed _ hclear]
    simp only [Context.room, hagree.options]

/-- A number is written beside a formula. -/
theorem display_setValue_beside :
    let s := ofGrid (.ofRows #[#[.number 1, .text "=A1+1"]]) .standard
    (s.setValue ⟨0, 2⟩ (.number 9)).2.display ⟨0, 1⟩ = s.display ⟨0, 1⟩ := by
  intro s
  have hg : (Grid.ofRows #[#[.number 1, .text "=A1+1"]]).Built := .ofRows _ (by decide) (by decide)
  have h' := (synced_ofGrid hg .standard).setValue (c := ⟨0, 2⟩) (by decide) (.number 9)
  have hentries : s.engine.formulas.entries = [(⟨0, 1⟩, "=A1+1")] := by decide +kernel
  have hentries' : (s.setValue ⟨0, 2⟩ (.number 9)).2.engine.formulas.entries =
      [(⟨0, 1⟩, "=A1+1")] := by
    rw [h'.formulas_eq, grid_setValue]
    decide +kernel
  have htext : ∀ e text, s.engine.formulas.get? e = some text → text = "=A1+1" := by
    intro e text he
    rw [← mem_entries, hentries] at he
    exact (Prod.mk.inj (List.mem_singleton.1 he)).2
  have htext' : ∀ e text, (s.setValue ⟨0, 2⟩ (.number 9)).2.engine.formulas.get? e = some text →
      text = "=A1+1" := by
    intro e text he
    rw [← mem_entries, hentries'] at he
    exact (Prod.mk.inj (List.mem_singleton.1 he)).2
  have htokens : Formula.tokens "=A1+1".toList = [.cell ⟨⟨0, 0⟩, false, false⟩] := by
    decide +kernel
  refine display_setValue_of_not_mem hg .standard .refl (by decide) (.number 9) ?_ ?_
  · intro e text he
    rw [htext e text he]
    decide +kernel
  · rw [cells_setValue]
    refine h'.not_mem_affected_of_unread ?_ ?_ (by decide)
    · intro e text he
      rw [htext' e text he, Skips, htokens]
      decide +kernel
    · intro e text he
      rw [htext' e text he, Covers, htokens]
      decide +kernel

end Spreadsheet.Sheet
