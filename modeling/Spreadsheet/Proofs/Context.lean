import Spreadsheet.Engine
import Spreadsheet.Proofs.Formula.Reads

/-!
Evaluation in two contexts. A formula meets a context only in the cells that its tokens cover, so
contexts that answer for those alike give it the same value. Answers are alike one after the other:
what is read first is remembered, and it may have used up the depth that was left. Contexts that
agree on all cells of a set from which no formula leads out compute the same there, step by step.
-/
namespace Spreadsheet.Context

open Formula (Covers callsApart)

variable {x y : Context} {P : Cell → Prop} {c d : Cell} {p q : Progress} {text : String}

section Pending

variable {read : Cell → Progress → Value × Progress}

theorem pending_formulaWith (x : Context)
    (hread : ∀ c p, (read c p).2.pending = p.pending) (text : String) (c : Cell) (p : Progress) :
    (x.formulaWith read text c p).2.pending = p.pending := by
  unfold formulaWith
  split
  · rfl
  · exact Query.run_keeps (I := fun p' => p'.pending = p.pending)
      (fun d p' hp => (hread d p').trans hp) _ rfl

/-- When a cell is computed, no more cells are under computation than before. -/
theorem pending_valueWithin (x : Context) (room : Nat) (c : Cell) (p : Progress) :
    (x.valueWithin room c p).2.pending = p.pending := by
  induction room generalizing c p with
  | zero =>
    unfold valueWithin
    split
    · rfl
    · split
      · rfl
      · split <;> rfl
  | succ room ih =>
    unfold valueWithin
    split
    · rfl
    · rename_i text _
      split
      · rfl
      · split
        · rfl
        · have hbody := pending_formulaWith x ih text c (p.enter c)
          simp only [Progress.remember, Progress.leave, hbody]
          rfl

theorem pending_cellValue (x : Context) (c : Cell) (p : Progress) :
    (x.cellValue c p).2.pending = p.pending := pending_valueWithin x _ c p

theorem valueWithin_room (x : Context) (h : p.pending = q.pending) (c : Cell) :
    x.valueWithin (x.room q) c p = x.cellValue c p := by
  rw [cellValue, room, room, h]

variable {α β : Type} {p' : Progress}

theorem pending_answer (x : Context) (q : Query α) (p : Progress) :
    (x.answer q p).2.pending = p.pending :=
  Query.run_keeps (I := fun p' => p'.pending = p.pending)
    (fun c p' hp => (x.pending_valueWithin _ c p').trans hp) q rfl

theorem answer_computed (x : Context) (c : Cell) (next : Value → Query α) (p : Progress) :
    x.answer (.computed c next) p = x.answer (next (x.cellValue c p).1) (x.cellValue c p).2 := by
  have hroom : x.room (x.cellValue c p).2 = x.room p := by
    rw [room, room, x.pending_cellValue]
  unfold answer
  rw [hroom]
  rfl

theorem answer_bind_of_ok {q : Query α} {f : α → Query β} {a : α}
    (h : x.answer q p = (.ok a, p')) : x.answer (q >>= f) p = x.answer (f a) p' := by
  have hpending := x.pending_answer q p
  rw [h] at hpending
  have hroom : x.room p' = x.room p := by
    rw [room, room, hpending]
  unfold answer at h ⊢
  rw [Query.run_bind_of_ok h, hroom]

theorem answer_bind_of_error {q : Query α} {f : α → Query β} {e : FormulaError}
    (h : x.answer q p = (.error e, p')) : x.answer (q >>= f) p = (.error e, p') :=
  Query.run_bind_of_error h

theorem answer_attempt (x : Context) (q : Query α) (p : Progress) :
    x.answer q.attempt p = (.ok (x.answer q p).1, (x.answer q p).2) := Query.run_attempt q p

theorem length_cellValues (x : Context) (cs : List Cell) (p : Progress) :
    (x.cellValues cs p).1.length = cs.length := by
  induction cs generalizing p with
  | nil => rfl
  | cons c cs ih => simp only [cellValues, List.length_cons, ih]

/-- A call whose count of arguments is right passes on a result that is no infinity. -/
theorem answer_call {f : LibraryFunction} {o : Options} {eval : Text → Query Value}
    {args : List Argument} {v : Value} (hargs : f.checkArity args.length = .ok ())
    (h : x.answer (f.result o eval args) p = (.ok v, p'))
    (hv : LibraryFunction.finiteValue v = .ok v) : x.answer (f.call o eval args) p = (.ok v, p') := by
  have hchecked : x.answer (.ofExcept (f.checkArity args.length)) p = (.ok (), p) := by
    rw [hargs]
    rfl
  rw [LibraryFunction.call, x.answer_bind_of_ok hchecked, x.answer_bind_of_ok h, hv]
  rfl

end Pending

section Agree

variable {U : Cell → Prop} {read read' : Cell → Progress → Value × Progress}

/-- The contexts are the same as far as the cells of a set go. -/
structure AgreeOn (U : Cell → Prop) (x y : Context) : Prop where
  options : x.options = y.options
  formulas : ∀ d, U d → x.formulas.get? d = y.formulas.get? d
  grid : ∀ d, U d → x.grid.get d = y.grid.get d
  circular : ∀ d, U d → (d ∈ x.circular ↔ d ∈ y.circular)

/-- The formulas of the set mention no cell outside it, and their calls stand apart. -/
structure Closed (U : Cell → Prop) (x : Context) : Prop where
  apart : ∀ c text, U c → x.formulas.get? c = some text → callsApart text.toList = true
  inside : ∀ c text, U c → x.formulas.get? c = some text → ∀ d, Covers text.toList d → U d

theorem AgreeOn.formulaWith_eq (h : AgreeOn U x y) (hc : U c)
    (hcalls : callsApart text.toList = true) (hinside : ∀ d, Covers text.toList d → U d)
    (hread : ∀ d p, U d → read d p = read' d p) (p : Progress) :
    x.formulaWith read text c p = y.formulaWith read' text c p := by
  have hstored : ∀ d, Covers text.toList d → x.grid.get d = y.grid.get d := fun d hd =>
    h.grid d (hinside d hd)
  have hstep : ∀ d p q, Covers text.toList d → p = q →
      (read d p).1 = (read' d q).1 ∧ (read d p).2 = (read' d q).2 := by
    rintro d p q hd rfl
    rw [hread d p (hinside d hd)]
    exact ⟨rfl, rfl⟩
  obtain ⟨hvalue, hprogress⟩ :=
    (Formula.within_body y.options hcalls).run_eq hstored hstep (rfl : p = p)
  unfold formulaWith
  simp only [h.circular c hc, h.options, Prod.ext hvalue hprogress]

theorem AgreeOn.valueWithin_eq (h : AgreeOn U x y) (hU : Closed U x) (room : Nat) (hc : U c)
    (p : Progress) : x.valueWithin room c p = y.valueWithin room c p := by
  induction room generalizing c p with
  | zero =>
    unfold valueWithin
    rw [h.formulas c hc, h.grid c hc]
  | succ room ih =>
    unfold valueWithin
    rw [h.formulas c hc, h.grid c hc]
    split
    · rfl
    · rename_i text htext
      rw [← h.formulas c hc] at htext
      have hbody := h.formulaWith_eq hc (hU.apart c text hc htext) (hU.inside c text hc htext)
        (fun d q hd => ih hd q) (p.enter c)
      simp only [hbody]

end Agree

section Reads

/-- The cells of a set have the same values, read one after the other in any order. -/
def SameReads (P : Cell → Prop) (x y : Context) (p q : Progress) : Prop :=
  ∀ ds : List Cell, (∀ d ∈ ds, P d) → (x.cellValues ds p).1 = (y.cellValues ds q).1

theorem SameReads.cellValue (h : SameReads P x y p q) (hd : P d) :
    (x.cellValue d p).1 = (y.cellValue d q).1 ∧
      SameReads P x y (x.cellValue d p).2 (y.cellValue d q).2 := by
  have hone : ∀ ds : List Cell, (∀ d ∈ ds, P d) →
      (x.cellValue d p).1 :: (x.cellValues ds (x.cellValue d p).2).1 =
        (y.cellValue d q).1 :: (y.cellValues ds (y.cellValue d q).2).1 := by
    intro ds hds
    exact h (d :: ds) (List.forall_mem_cons.2 ⟨hd, hds⟩)
  refine ⟨(List.cons.inj (hone [] (by simp))).1, fun ds hds => ?_⟩
  exact (List.cons.inj (hone ds hds)).2

/-- Cells without formulas are read alike if they hold the same. -/
theorem sameReads_of_stored (hx : ∀ d, P d → x.formulas.get? d = none)
    (hy : ∀ d, P d → y.formulas.get? d = none) (hgrid : ∀ d, P d → x.grid.get d = y.grid.get d)
    (p q : Progress) : SameReads P x y p q := by
  intro ds hds
  induction ds with
  | nil => rfl
  | cons d ds ih =>
    obtain ⟨hd, hds⟩ := List.forall_mem_cons.1 hds
    have hxd : x.cellValue d p = (.ofContent (x.grid.get d), p) := by
      unfold Context.cellValue valueWithin
      rw [hx d hd]
    have hyd : y.cellValue d q = (.ofContent (y.grid.get d), q) := by
      unfold Context.cellValue valueWithin
      rw [hy d hd]
    simp only [cellValues, hxd, hyd, hgrid d hd, ih hds]

/-- A formula whose calls stand apart has the same value in two contexts, however much each has
computed before, if both read the cells that its tokens cover alike. -/
theorem evaluate_eq_of_sameReads (hoptions : x.options = y.options) (hx : c ∉ x.circular)
    (hy : c ∉ y.circular) (hcalls : callsApart text.toList = true)
    (hstored : ∀ d, Covers text.toList d → x.grid.get d = y.grid.get d)
    (hreads : SameReads (Covers text.toList) x y p q) :
    (x.evaluate text c p).1 = (y.evaluate text c q).1 := by
  have hwithin := Formula.within_body y.options hcalls
  have hread : ∀ d p' q', Covers text.toList d → p'.pending = p.pending ∧ q'.pending = q.pending ∧
      SameReads (Covers text.toList) x y p' q' →
      (x.valueWithin (x.room p) d p').1 = (y.valueWithin (y.room q) d q').1 ∧
        (x.valueWithin (x.room p) d p').2.pending = p.pending ∧
        (y.valueWithin (y.room q) d q').2.pending = q.pending ∧
        SameReads (Covers text.toList) x y (x.valueWithin (x.room p) d p').2
          (y.valueWithin (y.room q) d q').2 := by
    rintro d p' q' hd ⟨hp, hq, hsame⟩
    rw [valueWithin_room x hp, valueWithin_room y hq]
    obtain ⟨hvalue, hsame⟩ := hsame.cellValue hd
    exact ⟨hvalue, (pending_cellValue x d p').trans hp, (pending_cellValue y d q').trans hq, hsame⟩
  have hrun := hwithin.run_eq (E := fun p' q' => p'.pending = p.pending ∧
    q'.pending = q.pending ∧ SameReads (Covers text.toList) x y p' q') hstored hread
    ⟨rfl, rfl, hreads⟩
  simp only [evaluate, formulaWith, hx, hy, if_false, hoptions]
  rw [hrun.1]

/-- A grid with its formulas, where no cell is known to lie on a cycle. -/
def untracked (g : Grid) (o : Options) : Context := ⟨g, Engine.formulasOf g, ∅, o⟩

theorem evaluate_eq_of_sameReads_wider :
    ((untracked (.ofRows #[#[.number 1, .number 2]]) .standard).evaluate "=SUM(A1:B1)" ⟨0, 3⟩
        .start).1 =
      ((untracked (.ofRows #[#[.number 1, .number 2, .number 9]]) .standard).evaluate
        "=SUM(A1:B1)" ⟨0, 3⟩ .start).1 := by
  have hcovered : Formula.covered "=SUM(A1:B1)".toList = [⟨0, 0⟩, ⟨0, 1⟩] := by decide +kernel
  have hcover : ∀ d, Covers "=SUM(A1:B1)".toList d → d = ⟨0, 0⟩ ∨ d = ⟨0, 1⟩ := by
    intro d hd
    rw [Formula.covers_iff_mem, hcovered] at hd
    simpa using hd
  refine evaluate_eq_of_sameReads rfl (by simp [untracked]) (by simp [untracked])
    (by decide +kernel) ?_ (sameReads_of_stored ?_ ?_ ?_ _ _) <;>
  · intro d hd
    rcases hcover d hd with rfl | rfl <;> decide +kernel

/-- Two contexts in which every cell that the tokens of a text cover reads alike by itself. -/
structure SameSingleReads (x y : Context) (text : String) (c : Cell) : Prop where
  options : x.options = y.options
  left : c ∉ x.circular
  right : c ∉ y.circular
  stored : ∀ d, Covers text.toList d → x.grid.get d = y.grid.get d
  reads : ∀ d, Covers text.toList d → (x.cellValue d .start).1 = (y.cellValue d .start).1

/-- A row of contents, where no more than two cells may be under computation. -/
def shallowRow (row : Array Content) : Context :=
  untracked (.ofRows #[row]) { Options.standard with maxDepth := 2 }

theorem options_shallowRow (row row' : Array Content) :
    (shallowRow row).options = (shallowRow row').options := rfl

/-- Here computing `A1` uses up the depth on `B1`, which shows an error from then on. -/
def spoiling : Context := shallowRow #[.text "=C1", .text "=E1", .text "=B1", .empty, .number 5]

/-- Here it uses up the depth on `D1`. -/
def sparing : Context :=
  shallowRow #[.text "=C1", .text "=E1", .text "=D1", .text "=E1", .number 5]

/-- Cells that read alike by themselves may not do so in turn. And the value of a call right behind
a dollar sign becomes the row number of a reference that no token covers. -/
theorem evaluate_ne_of_sameSingleReads :
    (callsApart "=MAX(A1,B1)".toList = true ∧
        SameSingleReads spoiling sparing "=MAX(A1,B1)" ⟨4, 4⟩ ∧
        (spoiling.evaluate "=MAX(A1,B1)" ⟨4, 4⟩ .start).1 ≠
          (sparing.evaluate "=MAX(A1,B1)" ⟨4, 4⟩ .start).1) ∧
      SameSingleReads (shallowRow #[.number 1]) (shallowRow #[.number 2]) "=A$SUM(1)" ⟨4, 4⟩ ∧
        ((shallowRow #[.number 1]).evaluate "=A$SUM(1)" ⟨4, 4⟩ .start).1 ≠
          ((shallowRow #[.number 2]).evaluate "=A$SUM(1)" ⟨4, 4⟩ .start).1 := by
  have hcovered : Formula.covered "=MAX(A1,B1)".toList = [⟨0, 0⟩, ⟨0, 1⟩] := by decide +kernel
  have hcover : ∀ d, Covers "=MAX(A1,B1)".toList d → d = ⟨0, 0⟩ ∨ d = ⟨0, 1⟩ := by
    intro d hd
    rw [Formula.covers_iff_mem, hcovered] at hd
    simpa using hd
  have hcovered' : Formula.covered "=A$SUM(1)".toList = [] := by decide +kernel
  have hnone : ∀ d, ¬Covers "=A$SUM(1)".toList d := by
    intro d hd
    rw [Formula.covers_iff_mem, hcovered'] at hd
    cases hd
  have hsame : SameSingleReads spoiling sparing "=MAX(A1,B1)" ⟨4, 4⟩ := by
    refine ⟨options_shallowRow _ _, Std.ExtTreeSet.not_mem_empty, Std.ExtTreeSet.not_mem_empty,
      ?_, ?_⟩ <;>
    · intro d hd
      rcases hcover d hd with rfl | rfl <;> decide +kernel
  have hsame' : SameSingleReads (shallowRow #[.number 1]) (shallowRow #[.number 2]) "=A$SUM(1)"
      ⟨4, 4⟩ := by
    refine ⟨options_shallowRow _ _, Std.ExtTreeSet.not_mem_empty, Std.ExtTreeSet.not_mem_empty,
      ?_, ?_⟩ <;>
    · intro d hd
      exact (hnone d hd).elim
  exact ⟨⟨by decide +kernel, hsame, by decide +kernel⟩, hsame', by decide +kernel⟩

end Reads

end Spreadsheet.Context
