import Spreadsheet.Proofs.Context.Invariant
import Spreadsheet.Proofs.Formula.Yields
import Spreadsheet.Proofs.Grid

/-!
Numbers stay finite. If those of the grid are, no infinity and no other non-number is ever computed
or remembered, whatever the formulas are and at whatever moment of an evaluation one asks.
-/
namespace Spreadsheet.Context

open Formula (callNamed)

variable {x : Context} {p : Progress} {α : Type}

/-- The progress at the moments of an evaluation: one cell after the other becomes pending, and on
the way to the next one queries are answered. -/
inductive Reached (x : Context) : Progress → Prop where
  | start : Reached x .start
  | enter (c : Cell) {p : Progress} : Reached x p → Reached x (p.enter c)
  | answer {α : Type} (q : Query α) {p : Progress} : Reached x p → Reached x (x.answer q p).2

/-- No number of the grid is infinite or none at all. -/
def FiniteGrid (x : Context) : Prop := ∀ c y, x.grid.get c = .number y → y.isFinite = true

def isFiniteContent : Content → Bool
  | .number y => y.isFinite
  | _ => true

theorem finiteGrid_of_rows (h : x.grid.rows.all (·.all isFiniteContent) = true) : x.FiniteGrid := by
  refine Grid.get_of_all (P := fun v => ∀ y, v = .number y → y.isFinite = true) ?_ (by simp)
  rintro row hrow v hv y rfl
  exact Array.all_eq_true_iff_forall_mem.1 (Array.all_eq_true_iff_forall_mem.1 h row hrow) _ hv

theorem admits_isFinite : Admits Value.IsFinite fun c => (Value.ofContent c).IsFinite where
  plain _ _ hv := hv
  failed := by simp [Value.IsFinite]
  notAvailable := by simp [Value.IsFinite]
  content _ hc := hc

theorem FiniteGrid.isFinite_ofContent (hx : x.FiniteGrid) (c : Cell) :
    (Value.ofContent (x.grid.get c)).IsFinite := by
  intro y hy
  cases hc : x.grid.get c with
  | number z =>
    rw [hc] at hy
    cases hy
    exact hx c y hc
  | _ => simp [hc, Value.ofContent] at hy

theorem yields_entry (x : Context) (text : String) (c : Cell) : (x.entry text c).Yields
    Value.IsFinite (fun c => (Value.ofContent c).IsFinite) Value.IsFinite := by
  unfold entry
  split
  · simp [Query.Yields, Value.IsFinite]
  · exact Formula.yields_value admits_isFinite x.options _

/-- One formula keeps numbers finite, and so evaluation does. -/
theorem FiniteGrid.upholds (hx : x.FiniteGrid) :
    x.Upholds (fun _ => Value.IsFinite) fun _ => True where
  content c _ := hx.isFinite_ofContent c
  again _ _ _ _ := by simp [Value.IsFinite]
  deep _ _ _ _ := by simp [Value.IsFinite]
  formula c cs text read _ _ _ hread p hp := by
    rw [formulaWith_eq_run]
    obtain ⟨hvalue, hkept⟩ := (x.yields_entry text c).run (Query.within_any _)
      (fun c _ => hx.isFinite_ofContent c) (fun d q _ hq => hread d (fun _ => trivial) q hq) hp
    exact ⟨ofOutcome_mem hvalue, hkept⟩

theorem Reached.holds (hx : x.FiniteGrid) (hp : x.Reached p) :
    Holds (fun _ => Value.IsFinite) p.pending p := by
  induction hp with
  | start => exact holds_start
  | enter c _ ih => exact ih.enter c
  | answer q _ ih =>
    rw [pending_answer]
    exact hx.upholds.keeps_answer ih (fun _ _ => trivial) q

/-- What a query makes of its answers is finite if it is so whenever these are. -/
theorem Reached.settles_answer (hx : x.FiniteGrid) (hp : x.Reached p) {q : Query Value}
    (hq : q.Yields Value.IsFinite (fun c => (Value.ofContent c).IsFinite) Value.IsFinite) :
    Query.Settles Value.IsFinite Value.IsFinite (x.answer q p).1 :=
  (hx.upholds.answer (hp.holds hx) hq q.within_any (fun _ _ _ => trivial) (fun _ _ _ hv => hv)
    fun c _ => hx.isFinite_ofContent c).1

/-- Every number is finite that a cell, a formula, a text inside a formula or a library call comes
out with, or that is remembered, at any moment of an evaluation. -/
theorem isFinite_of_reached (hx : x.FiniteGrid) (hp : x.Reached p) {y : Float} :
    (∀ c, (x.cellValue c p).1 = .number y → y.isFinite = true) ∧
      (∀ text c, (x.evaluate text c p).1 = .number y → y.isFinite = true) ∧
      (∀ t, (x.answer (Formula.value x.options t) p).1 = .ok (.number y) → y.isFinite = true) ∧
      (∀ name args, (x.answer (callNamed x.options (Formula.value x.options) name args) p).1 =
        .ok (.number y) → y.isFinite = true) ∧
      ∀ c : Cell, p.memo[c]? = some (.number y) → y.isFinite = true := by
  have hholds := hp.holds hx
  have hvalue := fun t => Formula.yields_value admits_isFinite x.options t
  have hcall := Formula.yields_callNamed (o := x.options)
    (Formula.evaluator_value admits_isFinite x.options)
  refine ⟨fun c hy => ?_, fun text c hy => ?_, fun t hy => ?_, fun name args hy => ?_,
    fun c hy => ?_⟩
  · exact (hx.upholds.cellValue hholds fun _ => trivial).1 y hy
  · rw [evaluate_eq_answer] at hy
    exact ofOutcome_mem (hp.settles_answer hx (x.yields_entry text c)) y hy
  · have hanswer := hp.settles_answer hx (hvalue t)
    rw [hy] at hanswer
    exact hanswer y rfl
  · have hanswer := hp.settles_answer hx (hcall name args)
    rw [hy] at hanswer
    exact hanswer y rfl
  · exact hholds.memo c _ hy y rfl

/-- Two numbers whose sum is no number that a cell could show. -/
def large : Context := untracked (.ofRows #[#[.number 1e308, .number 1e308]]) .standard

theorem isFinite_of_reached_large :
    large.FiniteGrid ∧ (large.evaluate "=SUM(A1:B1)" ⟨0, 2⟩ .start).1 = .error .failed ∧
      (large.evaluate "=MAX(A1:B1)" ⟨0, 2⟩ .start).1 = .number 1e308 ∧
      (1e308 : Float).isFinite = true := by
  have hlarge : large.FiniteGrid := finiteGrid_of_rows (by decide +kernel)
  have hmax : (large.evaluate "=MAX(A1:B1)" ⟨0, 2⟩ .start).1 = .number 1e308 := by decide +kernel
  exact ⟨hlarge, by decide +kernel, hmax,
    (isFinite_of_reached hlarge .start).2.1 "=MAX(A1:B1)" ⟨0, 2⟩ hmax⟩

end Spreadsheet.Context
