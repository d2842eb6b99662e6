import Spreadsheet.Query

/-!
What a query may ask and what it may end with. The rules follow the way queries are put together;
the purpose of them all is that two runs of a query whose cells answer alike have like outcomes.
-/
namespace Spreadsheet

theorem eq_ok_of_toOption {ε α : Type} {r : Except ε α} {a : α} (h : r.toOption = some a) :
    r = .ok a := by
  cases r with
  | error e => cases h
  | ok b => exact congrArg _ (Option.some.inj h)

theorem ne_error_of_toOption {ε α : Type} {r : Except ε α} {e : ε} {a : α}
    (h : r.toOption = some a) : r ≠ .error e := by
  rw [eq_ok_of_toOption h]
  exact nofun

namespace Query

variable {α β : Type} {P : Cell → Prop} {Q Q' : α → Prop} {R : β → Prop} {q : Query α}

/-- Whatever the answers are, the query asks only for cells in `P`, and a result is in `Q`. -/
def Ensures (P : Cell → Prop) (Q : α → Prop) : Query α → Prop
  | .done a => Q a
  | .fail _ => True
  | .computed c next => P c ∧ ∀ v, (next v).Ensures P Q
  | .stored c next => P c ∧ ∀ v, (next v).Ensures P Q

/-- The query asks only for cells in `P`. -/
def Within (P : Cell → Prop) (q : Query α) : Prop := q.Ensures P fun _ => True

theorem Ensures.mono (h : q.Ensures P Q) (hQ : ∀ a, Q a → Q' a) : q.Ensures P Q' := by
  induction q with
  | done a => exact hQ a h
  | fail e => trivial
  | computed c next ih => exact ⟨h.1, fun v => ih v (h.2 v)⟩
  | stored c next ih => exact ⟨h.1, fun v => ih v (h.2 v)⟩

theorem Within.mono {P' : Cell → Prop} (h : q.Within P) (hP : ∀ c, P c → P' c) : q.Within P' := by
  induction q with
  | done a => trivial
  | fail e => trivial
  | computed c next ih => exact ⟨hP c h.1, fun v => ih v (h.2 v)⟩
  | stored c next ih => exact ⟨hP c h.1, fun v => ih v (h.2 v)⟩

theorem Ensures.bind {f : α → Query β} (h : q.Ensures P Q) (hf : ∀ a, Q a → (f a).Ensures P R) :
    (q >>= f).Ensures P R := by
  change (q.bind f).Ensures P R
  induction q with
  | done a => exact hf a h
  | fail e => trivial
  | computed c next ih => exact ⟨h.1, fun v => ih v (h.2 v)⟩
  | stored c next ih => exact ⟨h.1, fun v => ih v (h.2 v)⟩

theorem Within.bind {f : α → Query β} (h : q.Within P) (hf : ∀ a, (f a).Within P) :
    (q >>= f).Within P :=
  Ensures.bind h fun a _ => hf a

theorem within_done (a : α) : (Query.done a).Within P := trivial

theorem within_fail (e : FormulaError) : (Query.fail (α := α) e).Within P := trivial

theorem within_computed {c : Cell} {next : Value → Query α} (hc : P c)
    (h : ∀ v, (next v).Within P) : (Query.computed c next).Within P := ⟨hc, h⟩

theorem within_stored {c : Cell} {next : Content → Query α} (hc : P c)
    (h : ∀ v, (next v).Within P) : (Query.stored c next).Within P := ⟨hc, h⟩

theorem ensures_ofExcept {r : Except FormulaError α} (h : ∀ a, r = .ok a → Q a) :
    (ofExcept r).Ensures P Q := by
  cases r with
  | ok a => exact h a rfl
  | error e => trivial

theorem within_ofExcept (r : Except FormulaError α) : (ofExcept r).Within P :=
  ensures_ofExcept fun _ _ => trivial

theorem Within.attempt (h : q.Within P) : q.attempt.Within P := by
  induction q with
  | done a => trivial
  | fail e => trivial
  | computed c next ih => exact ⟨h.1, fun v => ih v (h.2 v)⟩
  | stored c next ih => exact ⟨h.1, fun v => ih v (h.2 v)⟩

theorem within_foldComputed {f : β → Value → β} {cs : List Cell} (h : ∀ c ∈ cs, P c) (b : β) :
    (foldComputed f b cs).Within P := by
  induction cs generalizing b with
  | nil => trivial
  | cons c cs ih =>
    obtain ⟨hc, hcs⟩ := List.forall_mem_cons.1 h
    exact within_computed hc fun v => ih hcs (f b v)

theorem within_foldStored {f : β → Content → β} {cs : List Cell} (h : ∀ c ∈ cs, P c) (b : β) :
    (foldStored f b cs).Within P := by
  induction cs generalizing b with
  | nil => trivial
  | cons c cs ih =>
    obtain ⟨hc, hcs⟩ := List.forall_mem_cons.1 h
    exact within_stored hc fun v => ih hcs (f b v)

theorem within_foldlM {f : β → α → Query β} {as : List α} (h : ∀ a ∈ as, ∀ b, (f b a).Within P)
    (b : β) : (as.foldlM f b).Within P := by
  induction as generalizing b with
  | nil => trivial
  | cons a as ih =>
    obtain ⟨ha, has⟩ := List.forall_mem_cons.1 h
    rw [List.foldlM_cons]
    exact (ha b).bind fun b => ih has b

section Folds

theorem foldComputed_append (f : β → Value → β) (b : β) (cs ds : List Cell) :
    foldComputed f b (cs ++ ds) = foldComputed f b cs >>= fun b => foldComputed f b ds := by
  change _ = (foldComputed f b cs).bind _
  induction cs generalizing b with
  | nil => rfl
  | cons c cs ih => simp only [List.cons_append, foldComputed, bind, ih]

theorem foldStored_append (f : β → Content → β) (b : β) (cs ds : List Cell) :
    foldStored f b (cs ++ ds) = foldStored f b cs >>= fun b => foldStored f b ds := by
  change _ = (foldStored f b cs).bind _
  induction cs generalizing b with
  | nil => rfl
  | cons c cs ih => simp only [List.cons_append, foldStored, bind, ih]

end Folds

section Run

variable {σ τ : Type} {stored stored' : Cell → Content} {read : Cell → σ → Value × σ}
  {read' : Cell → τ → Value × τ}

/-- What follows a result goes on from the state that the result left. -/
theorem run_bind_of_ok {f : α → Query β} {a : α} {s s' : σ}
    (h : q.run stored read s = (.ok a, s')) :
    (q >>= f).run stored read s = (f a).run stored read s' := by
  change (q.bind f).run stored read s = _
  induction q generalizing s with
  | done b =>
    cases h
    rfl
  | fail e => cases h
  | computed c next ih => exact ih _ h
  | stored c next ih => exact ih _ h

theorem run_bind_of_error {f : α → Query β} {e : FormulaError} {s s' : σ}
    (h : q.run stored read s = (.error e, s')) : (q >>= f).run stored read s = (.error e, s') := by
  change (q.bind f).run stored read s = _
  induction q generalizing s with
  | done a => cases h
  | fail e =>
    cases h
    rfl
  | computed c next ih => exact ih _ h
  | stored c next ih => exact ih _ h

theorem exists_of_run_bind {f : α → Query β} {b : β} {s s' : σ}
    (h : (q >>= f).run stored read s = (.ok b, s')) :
    ∃ a s₁, q.run stored read s = (.ok a, s₁) ∧ (f a).run stored read s₁ = (.ok b, s') := by
  rcases hq : q.run stored read s with ⟨e | a, s₁⟩
  · rw [run_bind_of_error hq] at h
    cases h
  · rw [run_bind_of_ok hq] at h
    exact ⟨a, s₁, rfl, h⟩

/-- An attempt reads what the query reads, and its result is the outcome. -/
theorem run_attempt (q : Query α) (s : σ) :
    q.attempt.run stored read s = (.ok (q.run stored read s).1, (q.run stored read s).2) := by
  induction q generalizing s with
  | done a => rfl
  | fail e => rfl
  | computed c next ih => exact ih _ _
  | stored c next ih => exact ih _ _

/-- What every reading keeps, a run keeps. -/
theorem run_keeps {I : σ → Prop} (hread : ∀ c s, I s → I (read c s).2) (q : Query α) {s : σ}
    (hs : I s) : I (q.run stored read s).2 := by
  induction q generalizing s with
  | done a => exact hs
  | fail e => exact hs
  | computed c next ih => exact ih _ (hread c s hs)
  | stored c next ih => exact ih _ hs

/-- What the readings of all cells in question keep, a run keeps. -/
theorem Within.run_keeps {I : σ → Prop} (h : q.Within P)
    (hread : ∀ c s, P c → I s → I (read c s).2) {s : σ} (hs : I s) :
    I (q.run stored read s).2 := by
  induction q generalizing s with
  | done a => exact hs
  | fail e => exact hs
  | computed c next ih => exact ih _ (h.2 _) (hread c s h.1 hs)
  | stored c next ih => exact ih _ (h.2 _) hs

/-- Two runs have the same outcome if all cells in question give the same answers. -/
theorem Within.run_eq {E : σ → τ → Prop} (h : q.Within P)
    (hstored : ∀ c, P c → stored c = stored' c)
    (hread : ∀ c s t, P c → E s t →
      (read c s).1 = (read' c t).1 ∧ E (read c s).2 (read' c t).2) {s : σ} {t : τ} (hst : E s t) :
    (q.run stored read s).1 = (q.run stored' read' t).1 ∧
      E (q.run stored read s).2 (q.run stored' read' t).2 := by
  induction q generalizing s t with
  | done a => exact ⟨rfl, hst⟩
  | fail e => exact ⟨rfl, hst⟩
  | computed c next ih =>
    obtain ⟨hv, hst'⟩ := hread c s t h.1 hst
    simp only [run]
    rw [hv]
    exact ih _ (h.2 _) hst'
  | stored c next ih =>
    simp only [run]
    rw [hstored c h.1]
    exact ih _ (h.2 _) hst

end Run

end Query

end Spreadsheet
