import Spreadsheet.Proofs.Context.Memo
import Spreadsheet.Proofs.Sheet.Affected

/-!
The values of the used range as they are exported, computed with one memo from the first cell to the
last. Main statement: the entry of a cell is what the cell shows by itself, as long as no chain of
formulas that ends in what its value is computed from has more cells than may be pending at once.
-/
namespace Spreadsheet.Sheet

open Context (Remembers)
open Formula (Covers)
open Relation

variable {x : Context} {p : Progress} {r : Range} {c : Cell}

theorem exists_getElem?_of_forall₂ {α β : Type} {R : α → β → Prop} {as : List α} {bs : List β}
    (h : List.Forall₂ R as bs) {i : Nat} {a : α} (ha : as[i]? = some a) :
    ∃ b, bs[i]? = some b ∧ R a b := by
  induction h generalizing i with
  | nil => cases ha
  | @cons a' b' as bs hab _ ih =>
    cases i with
    | zero =>
      obtain rfl := Option.some.inj ha
      exact ⟨b', rfl, hab⟩
    | succ i => exact ih ha

theorem rowValues_right (hx : x.CallsApart) (cols : List UInt32) (hp : x.Remembers [] p)
    (rows : List UInt32) :
    List.Forall₂ (fun row vs => List.Forall₂ x.Right (cols.map (⟨row, ·⟩)) vs) rows
      (rowValues x cols rows p).1 := by
  induction rows generalizing p with
  | nil => exact .nil
  | cons row rows ih =>
    obtain ⟨hright, hp⟩ := hp.cellValues hx (cols.map (⟨row, ·⟩))
    exact .cons hright (ih hp)

theorem start_of_usedRange? {g : Grid} (h : g.usedRange? = some r) : r.start = ⟨0, 0⟩ := by
  unfold Grid.usedRange? at h
  split at h
  · cases h
  · obtain rfl := Option.some.inj h
    rw [Cell.eq_iff_toNat]
    simp only [Range.ofCorners, Min.min]
    split <;> split <;> simp_all [UInt32.le_iff_toNat_le]

theorem getElem?_rows_cols (hr : r.start = ⟨0, 0⟩) (hc : r.contains c = true) :
    r.rows[c.row.toNat]? = some c.row ∧ r.cols[c.col.toNat]? = some c.col := by
  obtain ⟨hrow, hcol⟩ := Range.contains_iff.1 hc
  have hi : c.row.toNat < r.rowCount := by
    unfold Range.rowCount
    rw [hr]
    exact Nat.lt_succ_of_le hrow.2
  have hj : c.col.toNat < r.colCount := by
    unfold Range.colCount
    rw [hr]
    exact Nat.lt_succ_of_le hcol.2
  have hrowAt : r.rowAt c.row.toNat = c.row := by simp [Range.rowAt, hr]
  have hcolAt : r.colAt c.col.toNat = c.col := by simp [Range.colAt, hr]
  simp [Range.rows, Range.cols, hi, hj, hrowAt, hcolAt]

/-- The exported value of a cell of the used range is the one that the cell shows by itself, unless
some chain of formulas too long to follow ends at the cell or in what its value is computed from. -/
theorem displayAll_eq_display (s : Sheet) (hx : (s.engine.context s.grid).CallsApart)
    (hr : s.grid.usedRange? = some r) (hc : r.contains c = true)
    (hsettled : (s.engine.context s.grid).Settled c) :
    s.displayAll[c.row.toNat]?.bind (·[c.col.toNat]?) = some (s.display c) := by
  obtain ⟨hrow, hcol⟩ := getElem?_rows_cols (start_of_usedRange? hr) hc
  have hrows := rowValues_right hx r.cols Context.remembers_start r.rows
  obtain ⟨vs, hvs, hright⟩ := exists_getElem?_of_forall₂ hrows hrow
  have hcell : (r.cols.map fun col => (⟨c.row, col⟩ : Cell))[c.col.toNat]? = some c := by
    rw [List.getElem?_map, hcol, Option.map_some]
  obtain ⟨v, hv, hexported⟩ := exists_getElem?_of_forall₂ hright hcell
  have hshown : (s.engine.context s.grid).Right c (s.display c) :=
    (Context.remembers_start.cellValue hx c).1
  simp only [displayAll, hr, hvs, Option.bind_some, hv, hexported.eq hsettled hshown]

/-- A formula that reads a formula that reads a number. -/
def twoFormulas : Grid := .ofRows #[#[.text "=B1", .text "=C1", .number 5]]

/-- Up to `depth` cells may be pending at once. -/
def depthOnly (depth : Nat) : Options := { Options.standard with maxDepth := depth }

theorem get?_twoFormulas {d : Cell} {text : String}
    (h : (Engine.formulasOf twoFormulas).get? d = some text) :
    d = ⟨0, 0⟩ ∧ text = "=B1" ∨ d = ⟨0, 1⟩ ∧ text = "=C1" := by
  have hentries : (Engine.formulasOf twoFormulas).entries =
      [(⟨0, 0⟩, "=B1"), (⟨0, 1⟩, "=C1")] := by decide +kernel
  rw [← Graph.mem_entries, hentries] at h
  simpa using h

theorem mem_of_covers_twoFormulas {a b : Cell} {text : String}
    (ha : (Engine.formulasOf twoFormulas).get? a = some text) (hb : Covers text.toList b) :
    a = ⟨0, 0⟩ ∧ b = ⟨0, 1⟩ ∨ a = ⟨0, 1⟩ ∧ b = ⟨0, 2⟩ := by
  have hfirst : Formula.covered "=B1".toList = [⟨0, 1⟩] := by decide +kernel
  have hsecond : Formula.covered "=C1".toList = [⟨0, 2⟩] := by decide +kernel
  rw [Formula.covers_iff_mem] at hb
  rcases get?_twoFormulas ha with ⟨rfl, rfl⟩ | ⟨rfl, rfl⟩
  · rw [hfirst, List.mem_singleton] at hb
    exact .inl ⟨rfl, hb⟩
  · rw [hsecond, List.mem_singleton] at hb
    exact .inr ⟨rfl, hb⟩

theorem context_twoFormulas (o : Options) :
    (ofGrid twoFormulas o).engine.context twoFormulas = .untracked twoFormulas o := by
  have h := synced_ofGrid (.ofRows _ (by decide) (by decide) : twoFormulas.Built) o
  have hreads : ∀ a b, (ofGrid twoFormulas o).engine.graph.Reads a b →
      a = ⟨0, 0⟩ ∧ b = ⟨0, 1⟩ ∨ a = ⟨0, 1⟩ ∧ b = ⟨0, 2⟩ := by
    intro a b hab
    obtain ⟨text, htext, k, hk, -, hb⟩ := h.reads_iff.1 hab
    exact mem_of_covers_twoFormulas htext ⟨k, hk, hb⟩
  have hless : ∀ a b, TransGen (ofGrid twoFormulas o).engine.graph.Reads a b → a.col < b.col := by
    intro a b hab
    induction hab with
    | single hb => rcases hreads _ _ hb with ⟨rfl, rfl⟩ | ⟨rfl, rfl⟩ <;> decide
    | tail _ hc ih =>
      refine UInt32.lt_trans ih ?_
      rcases hreads _ _ hc with ⟨rfl, rfl⟩ | ⟨rfl, rfl⟩ <;> decide
  have hcircular : (ofGrid twoFormulas o).engine.circular = ∅ := by
    refine Std.ExtTreeSet.ext_mem fun d => ⟨fun hd => ?_, fun hd => ?_⟩
    · exact absurd (hless d d (h.mem_circular.1 hd)) (UInt32.lt_irrefl _)
    · exact absurd hd Std.ExtTreeSet.not_mem_empty
  exact congrArg (Context.mk twoFormulas (Engine.formulasOf twoFormulas) · o) hcircular

/-- The two formulas are as long a chain as may be. -/
theorem displayAll_eq_display_twoFormulas :
    let s := ofGrid twoFormulas (depthOnly 2)
    s.displayAll[0]?.bind (·[1]?) = some (s.display ⟨0, 1⟩) := by
  have hused : twoFormulas.usedRange? = some (.ofCorners ⟨0, 0⟩ ⟨0, 2⟩) := by decide +kernel
  refine displayAll_eq_display (ofGrid twoFormulas (depthOnly 2)) (c := ⟨0, 1⟩) ?_ hused
    (by decide) ?_
  · intro d text hd
    rcases get?_twoFormulas hd with ⟨-, rfl⟩ | ⟨-, rfl⟩ <;> decide +kernel
  · rintro d - cs ⟨hformulas, hlinked⟩
    match cs with
    | [] => exact Nat.zero_lt_two
    | [_] => exact Nat.one_lt_two
    | a :: b :: _ =>
      obtain ⟨hda, hab⟩ := List.isChain_cons_cons.1 hlinked
      obtain ⟨-, textA, htextA, hd⟩ := hda
      obtain ⟨-, textB, htextB, ha⟩ := (List.isChain_cons_cons.1 hab).1
      obtain ⟨text, htext⟩ := Option.isSome_iff_exists.1 (hformulas d List.mem_cons_self)
      have hd := mem_of_covers_twoFormulas htextA hd.covers
      have ha := mem_of_covers_twoFormulas htextB ha.covers
      have hd' := get?_twoFormulas htext
      rcases hd with ⟨rfl, rfl⟩ | ⟨rfl, rfl⟩
      · simp at ha
      · simp at hd'

/-- With less room the first formula leaves an error in the memo for the second one, which by itself
shows the number. -/
theorem displayAll_ne_display_of_deep :
    let s := ofGrid twoFormulas (depthOnly 1)
    s.displayAll[0]?.bind (·[1]?) = some (.error .failed) ∧ s.display ⟨0, 1⟩ = .number 5 := by
  intro s
  have hcontext := context_twoFormulas (depthOnly 1)
  have hused : s.grid.usedRange? = some (.ofCorners ⟨0, 0⟩ ⟨0, 2⟩) := by decide +kernel
  unfold displayAll display Engine.display
  rw [hused]
  change ((rowValues (s.engine.context twoFormulas) _ _ _).1[0]?.bind _) = _ ∧
    ((s.engine.context twoFormulas).cellValue _ _).1 = _
  rw [hcontext]
  decide +kernel

end Spreadsheet.Sheet
