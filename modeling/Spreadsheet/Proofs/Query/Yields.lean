import Spreadsheet.Proofs.Query

/-!
What a query ends with when its cells answer as expected. The expectation is a set of values that
computed cells may have and a set of contents that stored cells may have. A failure counts as the
value that the failing cell shows.
-/
namespace Spreadsheet.Query

variable {α β : Type} {V : Value → Prop} {S : Content → Prop} {P : Cell → Prop} {Q Q' : α → Prop}
  {R : β → Prop} {q : Query α}

/-- The result is in `Q`, or the value that the failure shows is in `V`. -/
def Settles (V : Value → Prop) (Q : α → Prop) : Except FormulaError α → Prop
  | .ok a => Q a
  | .error e => V (.error e.shown)

/-- If computed cells answer in `V` and stored ones in `S`, the query ends in `Q`, or it fails and
shows a value in `V`. -/
def Yields (V : Value → Prop) (S : Content → Prop) (Q : α → Prop) : Query α → Prop
  | .done a => Q a
  | .fail e => V (.error e.shown)
  | .computed _ next => ∀ v, V v → (next v).Yields V S Q
  | .stored _ next => ∀ v, S v → (next v).Yields V S Q

theorem Yields.mono (h : q.Yields V S Q) (hQ : ∀ a, Q a → Q' a) : q.Yields V S Q' := by
  induction q with
  | done a => exact hQ a h
  | fail e => exact h
  | computed c next ih => exact fun v hv => ih v (h v hv)
  | stored c next ih => exact fun v hv => ih v (h v hv)

theorem Yields.bind {f : α → Query β} (h : q.Yields V S Q) (hf : ∀ a, Q a → (f a).Yields V S R) :
    (q >>= f).Yields V S R := by
  change (q.bind f).Yields V S R
  induction q with
  | done a => exact hf a h
  | fail e => exact h
  | computed c next ih => exact fun v hv => ih v (h v hv)
  | stored c next ih => exact fun v hv => ih v (h v hv)

theorem yields_ofExcept {r : Except FormulaError α} (h : Settles V Q r) :
    (ofExcept r).Yields V S Q := by
  cases r with
  | ok a => exact h
  | error e => exact h

theorem Yields.attempt (h : q.Yields V S Q) : q.attempt.Yields V S (Settles V Q) := by
  induction q with
  | done a => exact h
  | fail e => exact h
  | computed c next ih => exact fun v hv => ih v (h v hv)
  | stored c next ih => exact fun v hv => ih v (h v hv)

theorem yields_foldComputed (f : β → Value → β) (cs : List Cell) (b : β) :
    (foldComputed f b cs).Yields V S fun _ => True := by
  induction cs generalizing b with
  | nil => trivial
  | cons c cs ih => exact fun v _ => ih (f b v)

theorem yields_foldStored (f : β → Content → β) (cs : List Cell) (b : β) :
    (foldStored f b cs).Yields V S fun _ => True := by
  induction cs generalizing b with
  | nil => trivial
  | cons c cs ih => exact fun v _ => ih (f b v)

theorem yields_foldlM {f : β → α → Query β} {as : List α}
    (h : ∀ a ∈ as, ∀ b, R b → (f b a).Yields V S R) {b : β} (hb : R b) :
    (as.foldlM f b).Yields V S R := by
  induction as generalizing b with
  | nil => exact hb
  | cons a as ih =>
    obtain ⟨ha, has⟩ := List.forall_mem_cons.1 h
    rw [List.foldlM_cons]
    exact (ha b hb).bind fun b hb => ih has hb

theorem within_any (q : Query α) : q.Within fun _ => True := by
  induction q with
  | done a => trivial
  | fail e => trivial
  | computed c next ih => exact ⟨trivial, ih⟩
  | stored c next ih => exact ⟨trivial, ih⟩

section Run

variable {σ : Type} {stored : Cell → Content} {read : Cell → σ → Value × σ}

/-- If the cells that the query may ask for answer as expected, so does the run. -/
theorem Yields.run {I : σ → Prop} (h : q.Yields V S Q) (hwithin : q.Within P)
    (hstored : ∀ c, P c → S (stored c))
    (hread : ∀ c s, P c → I s → V (read c s).1 ∧ I (read c s).2) {s : σ} (hs : I s) :
    Settles V Q (q.run stored read s).1 ∧ I (q.run stored read s).2 := by
  induction q generalizing s with
  | done a => exact ⟨h, hs⟩
  | fail e => exact ⟨h, hs⟩
  | computed c next ih =>
    obtain ⟨hv, hs⟩ := hread c s hwithin.1 hs
    exact ih _ (h _ hv) (hwithin.2 _) hs
  | stored c next ih => exact ih _ (h _ (hstored c hwithin.1)) (hwithin.2 _) hs

end Run

end Spreadsheet.Query
