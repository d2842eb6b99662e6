import Spreadsheet.Proofs.Context
import Spreadsheet.Proofs.Query.Yields

/-!
What evaluation upholds. A relation between cells and values is looked at in one step, that of a
formula whose cells answer in the relation, and at the three places where evaluation cuts a step
short; then it holds of every value that is computed and of every value that is remembered.
-/
namespace Spreadsheet.Context

variable {x : Context} {R : Cell → Value → Prop} {T : List Cell → Prop} {c d : Cell}
  {cs : List Cell} {p : Progress} {room : Nat}

/-- A formula as a query, as if it stood in a cell. -/
def entry (x : Context) (text : String) (c : Cell) : Query Value :=
  if c ∈ x.circular then .done (.error .circular)
  else Formula.value x.options (Formula.body text.toList)

theorem formulaWith_eq_run (x : Context) (read : Cell → Progress → Value × Progress)
    (text : String) (c : Cell) (p : Progress) :
    x.formulaWith read text c p = (.ofOutcome ((x.entry text c).run x.grid.get read p).1,
      ((x.entry text c).run x.grid.get read p).2) := by
  unfold formulaWith entry
  split <;> rfl

theorem evaluate_eq_answer (x : Context) (text : String) (c : Cell) (p : Progress) :
    x.evaluate text c p =
      (.ofOutcome (x.answer (x.entry text c) p).1, (x.answer (x.entry text c) p).2) :=
  x.formulaWith_eq_run _ text c p

/-- The memo holds values in the relation, and the cells `cs` are pending. -/
structure Holds (R : Cell → Value → Prop) (cs : List Cell) (p : Progress) : Prop where
  memo : ∀ (c : Cell) (v : Value), p.memo[c]? = some v → R c v
  pending_eq : p.pending = cs

theorem holds_start : Holds R [] .start where
  memo c v hv := by simp [Progress.start] at hv
  pending_eq := rfl

theorem Holds.enter (h : Holds R cs p) (c : Cell) : Holds R (c :: cs) (p.enter c) where
  memo := h.memo
  pending_eq := congrArg (c :: ·) h.pending_eq

theorem Holds.leave (h : Holds R (c :: cs) p) : Holds R cs p.leave where
  memo := h.memo
  pending_eq := congrArg List.tail h.pending_eq

theorem Holds.remember {v : Value} (h : Holds R cs p) (hv : R c v) :
    Holds R cs (p.remember c v) where
  memo d w hw := by
    rw [Progress.remember, Std.ExtTreeMap.getElem?_insert] at hw
    split at hw
    · rename_i hcd
      obtain rfl : c = d := by simpa using hcd
      cases hw
      exact hv
    · exact h.memo d w hw
  pending_eq := h.pending_eq

/-- The reading of a cell answers in the relation and keeps what is remembered in it. -/
def Reads (R : Cell → Value → Prop) (cs : List Cell) (read : Cell → Progress → Value × Progress)
    (d : Cell) : Prop :=
  ∀ p, Holds R cs p → R d (read d p).1 ∧ Holds R cs (read d p).2

/-- The steps of evaluation stay in the relation while the pending formula cells are in `T`. -/
structure Upholds (x : Context) (R : Cell → Value → Prop) (T : List Cell → Prop) : Prop where
  content : ∀ c, x.formulas.get? c = none → R c (.ofContent (x.grid.get c))
  again : ∀ c cs, T (c :: cs) → c ∈ cs → R c (.error .circular)
  deep : ∀ c cs, T (c :: cs) → x.options.maxDepth ≤ cs.length → R c (.error .failed)
  formula : ∀ c cs text read, x.formulas.get? c = some text → T (c :: cs) →
    cs.length < x.options.maxDepth →
    (∀ d, ((x.formulas.get? d).isSome = true → T (d :: c :: cs)) → Reads R (c :: cs) read d) →
    Reads R (c :: cs) (x.formulaWith read text) c

/-- By induction on the room, all that is computed and remembered is in the relation. -/
theorem Upholds.valueWithin (h : Upholds x R T)
    (hcs : (x.formulas.get? c).isSome = true → T (c :: cs))
    (hroom : room = x.options.maxDepth - cs.length) : Reads R cs (x.valueWithin room) c := by
  induction room using Nat.strongRecOn generalizing c cs with
  | ind room ih =>
    intro p hp
    unfold Context.valueWithin
    split
    · exact ⟨h.content c ‹_›, hp⟩
    · rename_i text htext
      have hcs := hcs (by simp [htext])
      split
      · exact ⟨hp.memo c _ ‹_›, hp⟩
      · split
        · rename_i hpending
          have hagain := h.again c cs hcs (hp.pending_eq ▸ hpending)
          exact ⟨hagain, hp.remember hagain⟩
        · cases room with
          | zero =>
            have hdeep := h.deep c cs hcs (by omega)
            exact ⟨hdeep, hp.remember hdeep⟩
          | succ room =>
            have hlen : (c :: cs).length = cs.length + 1 := rfl
            have hread := fun d hd => @ih room (Nat.lt_succ_self room) d (c :: cs) hd (by omega)
            obtain ⟨hvalue, hkept⟩ :=
              h.formula c cs text _ htext hcs (by omega) hread _ (hp.enter c)
            exact ⟨hvalue, hkept.leave.remember hvalue⟩

theorem Upholds.cellValue (h : Upholds x R T) (hp : Holds R cs p)
    (hcs : (x.formulas.get? c).isSome = true → T (c :: cs)) :
    R c (x.cellValue c p).1 ∧ Holds R cs (x.cellValue c p).2 :=
  h.valueWithin hcs (by rw [room, hp.pending_eq]) p hp

section Answer

variable {α : Type} {V : Value → Prop} {S : Content → Prop} {P : Cell → Prop} {Q : α → Prop}
  {q : Query α} {r : Except FormulaError Value}

theorem ofOutcome_mem (h : Query.Settles V V r) : V (.ofOutcome r) := by
  cases r with
  | ok v => exact h
  | error e => exact h

theorem Upholds.keeps_answer (h : Upholds x R T) (hp : Holds R cs p)
    (hT : ∀ d, (x.formulas.get? d).isSome = true → T (d :: cs)) (q : Query α) :
    Holds R cs (x.answer q p).2 := by
  have hroom : x.room p = x.options.maxDepth - cs.length := by rw [room, hp.pending_eq]
  exact Query.run_keeps (fun d s hs => (h.valueWithin (hT d) hroom s hs).2) q hp

/-- A query comes out as expected if the relation is the expectation on the cells in question. -/
theorem Upholds.answer (h : Upholds x R T) (hp : Holds R cs p) (hq : q.Yields V S Q)
    (hwithin : q.Within P)
    (hT : ∀ d, P d → (x.formulas.get? d).isSome = true → T (d :: cs))
    (hV : ∀ d v, P d → R d v → V v) (hS : ∀ d, P d → S (x.grid.get d)) :
    Query.Settles V Q (x.answer q p).1 ∧ Holds R cs (x.answer q p).2 := by
  refine hq.run hwithin hS (fun d s hd hs => ?_) hp
  have hroom : x.room p = x.options.maxDepth - cs.length := by rw [room, hp.pending_eq]
  obtain ⟨hvalue, hkept⟩ := h.valueWithin (hT d hd) hroom s hs
  exact ⟨hV d _ hd hvalue, hkept⟩

end Answer

end Spreadsheet.Context
