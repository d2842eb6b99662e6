import Mathlib.Data.List.Chain
import Mathlib.Logic.Relation
import Spreadsheet.Proofs.Context.Invariant

/-!
The memo of an evaluation. What is remembered for a cell is the value that it has when it is computed
anew, unless the cell was first met at the end of a chain of formulas too long to follow: then its
error is remembered. So the memo is sound on every cell from which no such end is reached, and there
a value does not depend on what was computed before.
-/
namespace Spreadsheet.Context

open Formula (MayRead callsApart)
open Relation

variable {x : Context} {a b c d : Cell} {cs : List Cell} {p q : Progress} {text : String}

/-- Computing the formula of `a` may ask for `b`. -/
def Follows (x : Context) (a b : Cell) : Prop :=
  a ∉ x.circular ∧
    ∃ text, x.formulas.get? a = some text ∧ MayRead x.options.maxRangeCells text.toList b

/-- Formula cells, each of which may be asked for by the next one of the list. -/
structure Chain (x : Context) (cs : List Cell) : Prop where
  formulas : ∀ c ∈ cs, (x.formulas.get? c).isSome = true
  linked : cs.IsChain fun b a => x.Follows a b

/-- No chain that ends at the cell has more cells than may be pending at once. -/
def Shallow (x : Context) (c : Cell) : Prop :=
  ∀ cs, x.Chain (c :: cs) → cs.length < x.options.maxDepth

/-- All that the value of the cell is computed from is shallow. -/
def Settled (x : Context) (c : Cell) : Prop := ∀ d, ReflTransGen x.Follows c d → x.Shallow d

/-- The calls of all formulas stand apart. -/
def CallsApart (x : Context) : Prop :=
  ∀ c text, x.formulas.get? c = some text → callsApart text.toList = true

theorem Settled.shallow (h : x.Settled c) : x.Shallow c := h c .refl

theorem Settled.of_follows (h : x.Settled c) (hcd : x.Follows c d) : x.Settled d :=
  fun e he => h e (he.head hcd)

theorem Chain.cons (h : x.Chain (c :: cs)) (hcd : x.Follows c d)
    (hd : (x.formulas.get? d).isSome = true) : x.Chain (d :: c :: cs) where
  formulas := List.forall_mem_cons.2 ⟨hd, h.formulas⟩
  linked := List.isChain_cons_cons.2 ⟨hcd, h.linked⟩

theorem Chain.exists_longer (h : x.Chain (c :: cs)) (hc : c ∈ cs) (n : Nat) :
    ∃ ds, x.Chain (c :: ds) ∧ n ≤ ds.length := by
  obtain ⟨pre, post, rfl⟩ := List.append_of_mem hc
  have hsplit {ds : List Cell} := @List.isChain_split _ (fun b a => x.Follows a b) c (c :: pre) ds
  have hround := (hsplit.1 h.linked).1
  induction n with
  | zero => exact ⟨_, h, Nat.zero_le _⟩
  | succ n ih =>
    obtain ⟨ds, hds, hn⟩ := ih
    refine ⟨pre ++ c :: ds, ⟨fun d hd => ?_, ?_⟩, ?_⟩
    · have hmem : d ∈ (c :: pre) ++ c :: ds := hd
      rcases List.mem_append.1 hmem with hd | hd
      · exact h.formulas d (List.mem_append_left (c :: post) hd)
      · exact hds.formulas d hd
    · exact hsplit.2 ⟨hround, hds.linked⟩
    · rw [List.length_append, List.length_cons]
      omega

theorem Shallow.not_mem (h : x.Shallow c) (hcs : x.Chain (c :: cs)) : c ∉ cs := fun hc => by
  obtain ⟨ds, hds, hn⟩ := hcs.exists_longer hc x.options.maxDepth
  exact absurd (h ds hds) (Nat.not_lt.2 hn)

section Outcome

variable {f g : Cell → Value} {read : Cell → Progress → Value × Progress}

/-- Readings that nothing changes. -/
def steady (f : Cell → Value) (c : Cell) (_ : Unit) : Value × Unit := (f c, ())

/-- The value of a formula where each cell has a given value. -/
def outcome (x : Context) (f : Cell → Value) (text : String) : Value :=
  .ofOutcome ((Formula.value x.options (Formula.body text.toList)).run x.grid.get (steady f) ()).1

theorem outcome_congr (hcalls : callsApart text.toList = true)
    (h : ∀ d, MayRead x.options.maxRangeCells text.toList d → f d = g d) :
    x.outcome f text = x.outcome g text := by
  have hstep : ∀ d (u v : Unit), MayRead x.options.maxRangeCells text.toList d → u = v →
      (steady f d u).1 = (steady g d v).1 ∧ (steady f d u).2 = (steady g d v).2 :=
    fun d u v hd _ => ⟨h d hd, rfl⟩
  have hrun := (Formula.within_body_mayRead x.options hcalls).run_eq
    (fun d _ => (rfl : x.grid.get d = x.grid.get d)) hstep (rfl : () = ())
  exact congrArg Value.ofOutcome hrun.1

/-- A formula off the cycles has that value if every cell that it may ask for answers so. -/
theorem formulaWith_eq_outcome (hcalls : callsApart text.toList = true) (hc : c ∉ x.circular)
    {I : Progress → Prop}
    (hread : ∀ d p, MayRead x.options.maxRangeCells text.toList d → I p →
      (read d p).1 = f d ∧ I (read d p).2) (hp : I p) :
    (x.formulaWith read text c p).1 = x.outcome f text := by
  have hstep : ∀ d p (u : Unit), MayRead x.options.maxRangeCells text.toList d → I p →
      (read d p).1 = (steady f d u).1 ∧ I (read d p).2 := fun d p _ hd hp => hread d p hd hp
  have hrun := (Formula.within_body_mayRead x.options hcalls).run_eq (E := fun p _ => I p)
    (fun d _ => (rfl : x.grid.get d = x.grid.get d)) hstep (t := ()) hp
  unfold formulaWith
  rw [if_neg hc]
  exact congrArg Value.ofOutcome hrun.1

theorem formulaWith_keeps (htext : x.formulas.get? c = some text)
    (hcalls : callsApart text.toList = true) {I : Progress → Prop}
    (hread : ∀ d p, x.Follows c d → I p → I (read d p).2) (hp : I p) :
    I (x.formulaWith read text c p).2 := by
  unfold formulaWith
  split
  · exact hp
  · rename_i hc
    exact (Formula.within_body_mayRead x.options hcalls).run_keeps
      (fun d p hd hp => hread d p ⟨hc, text, htext, hd⟩ hp) hp

end Outcome

section Anew

/-- The value of a cell computed without a memo, where up to `n` formulas nest. -/
def anew (x : Context) : (n : Nat) → Cell → Value
  | n, c =>
    match x.formulas.get? c with
    | none => .ofContent (x.grid.get c)
    | some text =>
      match n with
      | 0 => .error .failed
      | n + 1 => if c ∈ x.circular then .error .circular else x.outcome (x.anew n) text

theorem anew_of_get?_eq_none (h : x.formulas.get? c = none) (n : Nat) :
    x.anew n c = .ofContent (x.grid.get c) := by
  unfold anew
  rw [h]

theorem anew_succ (h : x.formulas.get? c = some text) (n : Nat) :
    x.anew (n + 1) c =
      if c ∈ x.circular then .error .circular else x.outcome (x.anew n) text := by
  rw [anew, h]

/-- Behind a chain of formulas only so many may nest, and no larger bound changes the value. -/
theorem anew_eq_of_settled (hx : x.CallsApart) {n m : Nat} (hc : x.Settled c)
    (hcs : (x.formulas.get? c).isSome = true → x.Chain (c :: cs))
    (hn : x.options.maxDepth ≤ cs.length + n) (hm : x.options.maxDepth ≤ cs.length + m) :
    x.anew n c = x.anew m c := by
  induction n generalizing m c cs with
  | zero =>
    cases htext : x.formulas.get? c with
    | none => rw [anew_of_get?_eq_none htext, anew_of_get?_eq_none htext]
    | some text =>
      have hlt := hc.shallow cs (hcs (by rw [htext]; rfl))
      omega
  | succ n ih =>
    cases htext : x.formulas.get? c with
    | none => rw [anew_of_get?_eq_none htext, anew_of_get?_eq_none htext]
    | some text =>
      have hcs := hcs (by rw [htext]; rfl)
      have hlt := hc.shallow cs hcs
      obtain ⟨m, rfl⟩ : ∃ k, m = k + 1 := Nat.exists_eq_succ_of_ne_zero (by omega)
      rw [anew_succ htext, anew_succ htext]
      by_cases hcirc : c ∈ x.circular
      · rw [if_pos hcirc, if_pos hcirc]
      · rw [if_neg hcirc, if_neg hcirc]
        refine outcome_congr (hx c text htext) fun d hd => ?_
        have hfollows : x.Follows c d := ⟨hcirc, text, htext, hd⟩
        have hlen : (c :: cs).length = cs.length + 1 := rfl
        exact ih (hc.of_follows hfollows) (hcs.cons hfollows) (by omega) (by omega)

end Anew

section Remembers

variable {v : Value}

/-- If the cell is settled, the value is the one computed anew. -/
def Right (x : Context) (c : Cell) (v : Value) : Prop :=
  x.Settled c → v = x.anew x.options.maxDepth c

theorem right_of_get?_eq_none (h : x.formulas.get? c = none) :
    x.Right c (.ofContent (x.grid.get c)) := fun _ => (anew_of_get?_eq_none h _).symm

/-- The memo holds right values, and the cells `cs` are pending. -/
structure Remembers (x : Context) (cs : List Cell) (p : Progress) : Prop where
  right : ∀ (c : Cell) (v : Value), p.memo[c]? = some v → x.Right c v
  pending_eq : p.pending = cs

theorem remembers_start : x.Remembers [] .start where
  right c v hv := by simp [Progress.start] at hv
  pending_eq := rfl

theorem remembers_iff : x.Remembers cs p ↔ Holds x.Right cs p :=
  ⟨fun h => ⟨h.right, h.pending_eq⟩, fun h => ⟨h.memo, h.pending_eq⟩⟩

/-- While the formulas of a chain are pending, and there is room for what it asks for, a formula has
the right value. -/
theorem right_formulaWith (hx : x.CallsApart) (htext : x.formulas.get? c = some text)
    {read : Cell → Progress → Value × Progress} {I : Progress → Prop}
    (hread : ∀ d p, x.Follows c d → I p → x.Right d (read d p).1 ∧ I (read d p).2)
    (hcs : x.Chain (c :: cs)) (hlt : cs.length < x.options.maxDepth) (hp : I p) :
    x.Right c (x.formulaWith read text c p).1 := by
  intro hc
  obtain ⟨room, hroom⟩ : ∃ room, x.options.maxDepth = cs.length + (room + 1) :=
    ⟨x.options.maxDepth - cs.length - 1, by omega⟩
  have hanew : x.anew x.options.maxDepth c = x.anew (room + 1) c :=
    anew_eq_of_settled hx hc (fun _ => hcs) (by omega) (by omega)
  rw [hanew, anew_succ htext]
  by_cases hcirc : c ∈ x.circular
  · rw [if_pos hcirc, formulaWith, if_pos hcirc]
  · rw [if_neg hcirc]
    refine formulaWith_eq_outcome (hx c text htext) hcirc (fun d p hd hp => ?_) hp
    have hfollows : x.Follows c d := ⟨hcirc, text, htext, hd⟩
    obtain ⟨hright, hkept⟩ := hread d p hfollows hp
    refine ⟨?_, hkept⟩
    have hd := hc.of_follows hfollows
    have hlen : (c :: cs).length = cs.length + 1 := rfl
    exact (hright hd).trans (anew_eq_of_settled hx hd (hcs.cons hfollows) (by omega) (by omega))

/-- Whatever is computed at the end of a chain of pending cells is right, and what is remembered
stays right. A chain as long as may be, or one that meets a cell again, has no settled cell at its
end. -/
theorem upholds_right (hx : x.CallsApart) : x.Upholds x.Right x.Chain where
  content c hc := right_of_get?_eq_none hc
  again c cs hcs hc hsettled := absurd hc (hsettled.shallow.not_mem hcs)
  deep c cs hcs hdeep hsettled := absurd (hsettled.shallow cs hcs) (Nat.not_lt.2 hdeep)
  formula c cs text read htext hcs hlt hread p hp := by
    have hreads := fun d q hd => hread d (hcs.cons hd) q
    exact ⟨right_formulaWith hx htext hreads hcs hlt hp,
      formulaWith_keeps htext (hx c text htext) (fun d q hd hq => (hreads d q hd hq).2) hp⟩

/-- With nothing pending, a settled cell gets the value computed anew, whatever was computed
before. -/
theorem Remembers.cellValue (hx : x.CallsApart) (hp : x.Remembers [] p) (c : Cell) :
    x.Right c (x.cellValue c p).1 ∧ x.Remembers [] (x.cellValue c p).2 := by
  obtain ⟨hright, hkept⟩ := (upholds_right hx).cellValue (remembers_iff.1 hp) fun hc =>
    (⟨by simpa using hc, .singleton c⟩ : x.Chain [c])
  exact ⟨hright, remembers_iff.2 hkept⟩

theorem Remembers.cellValues (hx : x.CallsApart) (hp : x.Remembers [] p) (cs : List Cell) :
    List.Forall₂ x.Right cs (x.cellValues cs p).1 ∧ x.Remembers [] (x.cellValues cs p).2 := by
  induction cs generalizing p with
  | nil => exact ⟨.nil, hp⟩
  | cons c cs ih =>
    obtain ⟨hright, hp⟩ := hp.cellValue hx c
    obtain ⟨hrights, hp⟩ := ih hp
    exact ⟨.cons hright hrights, hp⟩

theorem Right.eq {w : Value} (hc : x.Settled c) (hv : x.Right c v) (hw : x.Right c w) : v = w :=
  (hv hc).trans (hw hc).symm

end Remembers

end Spreadsheet.Context
