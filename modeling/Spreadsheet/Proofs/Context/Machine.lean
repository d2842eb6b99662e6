import Mathlib.Logic.Relation
import Spreadsheet.Proofs.Context.Invariant
import Spreadsheet.Proofs.Formula.Nested

/-!
Evaluation as a machine. It takes one question of a formula at a time and has a stack of the formulas
that wait for an answer; no bound on its steps is built in. Yet it comes to the end of every query,
with the answer that evaluation gives, and never has a cell pending twice or more cells than allowed.
-/
namespace Spreadsheet.Context

open Relation

variable {x : Context} {c : Cell} {p : Progress} {q : Query Value} {text : String}

/-- A cell under computation, and how the query that asked for it goes on with its value. -/
structure Frame where
  cell : Cell
  next : Value → Query Value

/-- A query under way, with what waits for its result, the latest first. -/
structure Machine where
  query : Query Value
  progress : Progress
  frames : List Frame

/-- One question is answered, or a formula begins, or the value of the latest one is handed on. -/
def step (x : Context) : Machine → Option Machine
  | ⟨.done _, _, []⟩ => none
  | ⟨.fail _, _, []⟩ => none
  | ⟨.done v, p, f :: fs⟩ => some ⟨f.next v, p.leave.remember f.cell v, fs⟩
  | ⟨.fail e, p, f :: fs⟩ =>
    some ⟨f.next (.error e.shown), p.leave.remember f.cell (.error e.shown), fs⟩
  | ⟨.stored c next, p, fs⟩ => some ⟨next (x.grid.get c), p, fs⟩
  | ⟨.computed c next, p, fs⟩ =>
    match x.formulas.get? c with
    | none => some ⟨next (.ofContent (x.grid.get c)), p, fs⟩
    | some text =>
      match p.memo[c]? with
      | some v => some ⟨next v, p, fs⟩
      | none =>
        if c ∈ p.pending then
          some ⟨next (.error .circular), p.remember c (.error .circular), fs⟩
        else if x.options.maxDepth ≤ p.pending.length then
          some ⟨next (.error .failed), p.remember c (.error .failed), fs⟩
        else some ⟨x.entry text c, p.enter c, ⟨c, next⟩ :: fs⟩

/-- Some steps lead from one state to the other. -/
def Runs (x : Context) : Machine → Machine → Prop :=
  ReflTransGen fun m m' => x.step m = some m'

theorem Runs.head {m m' n : Machine} (h : x.step m = some m') (hruns : x.Runs m' n) : x.Runs m n :=
  ReflTransGen.head h hruns

theorem Runs.tail {m n n' : Machine} (hruns : x.Runs m n) (h : x.step n = some n') : x.Runs m n' :=
  ReflTransGen.tail hruns h

section Answers

variable {next : Value → Query Value} {fs : List Frame} {room : Nat}

/-- If the machine reads cells as evaluation does, it answers queries so. -/
theorem runs_of_reads
    (hread : ∀ c next p fs, x.room p = room → x.Runs ⟨.computed c next, p, fs⟩
      ⟨next (x.valueWithin room c p).1, (x.valueWithin room c p).2, fs⟩)
    (q : Query Value) (hp : x.room p = room) :
    x.Runs ⟨q, p, fs⟩ ⟨.ofExcept (q.run x.grid.get (x.valueWithin room) p).1,
      (q.run x.grid.get (x.valueWithin room) p).2, fs⟩ := by
  induction q generalizing p with
  | done v => exact .refl
  | fail e => exact .refl
  | computed c next ih =>
    refine (hread c next p fs hp).trans (ih _ ?_)
    rw [Context.room, pending_valueWithin]
    exact hp
  | stored c next ih => exact .head rfl (ih _ hp)

/-- By induction on the room for pending cells, the machine reads a cell as evaluation does. -/
theorem runs_computed (c : Cell) (next : Value → Query Value) (p : Progress) (fs : List Frame)
    (hp : x.room p = room) : x.Runs ⟨.computed c next, p, fs⟩
      ⟨next (x.valueWithin room c p).1, (x.valueWithin room c p).2, fs⟩ := by
  induction room using Nat.strongRecOn generalizing c next p fs with
  | ind room ih =>
    unfold valueWithin
    split
    · rename_i hnone
      exact .single (by simp [step, hnone])
    · rename_i text htext
      split
      · rename_i v hv
        exact .single (by simp [step, htext, hv])
      · rename_i hmemo
        split
        · rename_i hpending
          exact .single (by simp [step, htext, hmemo, hpending])
        · rename_i hpending
          cases room with
          | zero =>
            have hdeep : x.options.maxDepth ≤ p.pending.length := Nat.sub_eq_zero_iff_le.1 hp
            exact .single (by simp [step, htext, hmemo, hpending, hdeep])
          | succ room =>
            have hdeep : ¬x.options.maxDepth ≤ p.pending.length := by
              rw [Context.room] at hp
              omega
            have henter : x.room (p.enter c) = room := by
              rw [Context.room] at hp ⊢
              simp only [Progress.enter, List.length_cons]
              omega
            have hbegin : x.step ⟨.computed c next, p, fs⟩ =
                some ⟨x.entry text c, p.enter c, ⟨c, next⟩ :: fs⟩ := by
              simp [step, htext, hmemo, hpending, hdeep]
            have hbody : x.Runs ⟨x.entry text c, p.enter c, ⟨c, next⟩ :: fs⟩ _ :=
              runs_of_reads (ih room (Nat.lt_succ_self room)) (x.entry text c) henter
            simp only [formulaWith_eq_run]
            refine (hbody.head hbegin).tail ?_
            cases ((x.entry text c).run x.grid.get (x.valueWithin room) (p.enter c)).1 <;> rfl

theorem runs_answer (x : Context) (q : Query Value) (p : Progress) (fs : List Frame) :
    x.Runs ⟨q, p, fs⟩ ⟨.ofExcept (x.answer q p).1, (x.answer q p).2, fs⟩ :=
  runs_of_reads runs_computed q rfl

theorem step_ofExcept (x : Context) (r : Except FormulaError Value) (p : Progress) :
    x.step ⟨.ofExcept r, p, []⟩ = none := by
  cases r <;> rfl

theorem answer_computed_done (x : Context) (c : Cell) (p : Progress) :
    x.answer (.computed c .done) p = (.ok (x.cellValue c p).1, (x.cellValue c p).2) :=
  x.answer_computed c .done p

end Answers

section Pending

variable {m m' : Machine}

theorem pending_step (h : x.step m = some m') :
    (m'.frames = m.frames ∧ m'.progress.pending = m.progress.pending) ∨
      (∃ f, f.cell ∉ m.progress.pending ∧ m.progress.pending.length < x.options.maxDepth ∧
        m'.frames = f :: m.frames ∧ m'.progress.pending = f.cell :: m.progress.pending) ∨
      ∃ f, m.frames = f :: m'.frames ∧ m'.progress.pending = m.progress.pending.tail := by
  obtain ⟨q, p, fs⟩ := m
  cases q with
  | done v =>
    cases fs with
    | nil => cases h
    | cons f fs =>
      cases h
      exact .inr (.inr ⟨f, rfl, rfl⟩)
  | fail e =>
    cases fs with
    | nil => cases h
    | cons f fs =>
      cases h
      exact .inr (.inr ⟨f, rfl, rfl⟩)
  | stored c next =>
    cases h
    exact .inl ⟨rfl, rfl⟩
  | computed c next =>
    simp only [step] at h
    split at h
    · cases h
      exact .inl ⟨rfl, rfl⟩
    · split at h
      · cases h
        exact .inl ⟨rfl, rfl⟩
      · split at h
        · cases h
          exact .inl ⟨rfl, rfl⟩
        · rename_i hpending
          split at h
          · cases h
            exact .inl ⟨rfl, rfl⟩
          · rename_i hdeep
            cases h
            exact .inr (.inl ⟨⟨c, next⟩, hpending, Nat.lt_of_not_le hdeep, rfl, rfl⟩)

/-- The pending cells are those of the formulas that wait, each one once and no more than allowed. -/
structure Sound (x : Context) (m : Machine) : Prop where
  pending_eq : m.progress.pending = m.frames.map Frame.cell
  nodup : m.progress.pending.Nodup
  length_le : m.progress.pending.length ≤ x.options.maxDepth

theorem sound_start (x : Context) (q : Query Value) : x.Sound ⟨q, .start, []⟩ :=
  ⟨rfl, .nil, Nat.zero_le _⟩

theorem Sound.step (h : x.Sound m) (hstep : x.step m = some m') : x.Sound m' := by
  obtain ⟨hframes, hpending⟩ | ⟨f, hnew, hlt, hframes, hpending⟩ | ⟨f, hframes, hpending⟩ :=
    pending_step hstep
  · exact ⟨by rw [hpending, hframes, h.pending_eq], hpending ▸ h.nodup, hpending ▸ h.length_le⟩
  · refine ⟨?_, ?_, ?_⟩
    · rw [hpending, hframes, h.pending_eq, List.map_cons]
    · rw [hpending]
      exact h.nodup.cons hnew
    · rw [hpending]
      exact hlt
  · have htail : m.progress.pending.tail.Sublist m.progress.pending := List.tail_sublist _
    refine ⟨?_, ?_, ?_⟩
    · rw [hpending, h.pending_eq, hframes, List.map_cons, List.tail_cons]
    · rw [hpending]
      exact h.nodup.sublist htail
    · rw [hpending]
      exact htail.length_le.trans h.length_le

theorem Sound.runs (h : x.Sound m) (hruns : x.Runs m m') : x.Sound m' := by
  induction hruns with
  | refl => exact h
  | tail _ hstep ih => exact ih.step hstep

end Pending

/-- Evaluation terminates with a bounded stack. The value of a cell and that of a formula are come to
in some steps, from any state, and what was pending is so again. At every moment after a start with
nothing pending the cells under computation are distinct and no more than allowed. Inside a formula
the value of a text is come to from the values of shorter ones. -/
theorem evaluation_terminates (x : Context) :
    (∀ c p fs, x.Runs ⟨.computed c .done, p, fs⟩
        ⟨.done (x.cellValue c p).1, (x.cellValue c p).2, fs⟩ ∧
        (x.cellValue c p).2.pending = p.pending) ∧
      (∀ text c p fs, ∃ r, x.Runs ⟨x.entry text c, p, fs⟩
        ⟨.ofExcept r, (x.evaluate text c p).2, fs⟩ ∧
        (x.evaluate text c p).1 = .ofOutcome r ∧ (x.evaluate text c p).2.pending = p.pending) ∧
      (∀ r p, x.step ⟨.ofExcept r, p, []⟩ = none) ∧
      (∀ q m, x.Runs ⟨q, .start, []⟩ m →
        m.progress.pending.Nodup ∧ m.progress.pending.length ≤ x.options.maxDepth) ∧
      ∀ (eval : Text → Query Value) (t : Text),
        (∀ s : Text, s.length < t.length → eval s = Formula.value x.options s) →
          Formula.valueWith x.options eval t = Formula.value x.options t := by
  refine ⟨fun c p fs => ?_, fun text c p fs => ?_, x.step_ofExcept, fun q m hm => ?_,
    fun eval t => Formula.valueWith_eq_value⟩
  · have hruns := x.runs_answer (.computed c .done) p fs
    rw [answer_computed_done] at hruns
    exact ⟨hruns, x.pending_cellValue c p⟩
  · rw [evaluate_eq_answer]
    exact ⟨_, x.runs_answer (x.entry text c) p fs, rfl, x.pending_answer (x.entry text c) p⟩
  · have hsound := (x.sound_start q).runs hm
    exact ⟨hsound.nodup, hsound.length_le⟩

/-- Two formulas that read each other, where no cell is known to be on a cycle. -/
theorem evaluation_terminates_untracked :
    let x := untracked (.ofRows #[#[.text "=B1", .text "=A1"]]) .standard
    ∃ p, x.Runs ⟨.computed ⟨0, 0⟩ .done, .start, []⟩ ⟨.done (.error .circular), p, []⟩ ∧
      p.pending = [] := by
  intro x
  have hvalue : (x.cellValue ⟨0, 0⟩ .start).1 = .error .circular := by decide +kernel
  obtain ⟨hruns, hpending⟩ := (evaluation_terminates x).1 ⟨0, 0⟩ .start []
  rw [hvalue] at hruns
  exact ⟨_, hruns, hpending⟩

end Spreadsheet.Context
