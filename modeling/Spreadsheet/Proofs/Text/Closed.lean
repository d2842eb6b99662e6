import Mathlib.Algebra.Ring.Int.Defs
import Spreadsheet.Proofs.Text.Part

/-!
Texts that close the parentheses they open and hold no string literal. Such a text is passed over
whole by the search for the parenthesis that closes a call and, if it has no comma, by the cutting
of arguments.
-/
namespace Spreadsheet.Text

variable {s : Nesting} {c : Char} {t a b r : Text} {d : Nat}

section Depth

def weight (c : Char) : Int := if c = '(' then 1 else if c = ')' then -1 else 0

/-- How many more parentheses are open behind the text than before it. -/
def depth (t : Text) : Int := (t.map weight).sum

@[simp] theorem depth_nil : depth [] = 0 := rfl

@[simp] theorem depth_cons (c : Char) (t : Text) : depth (c :: t) = weight c + depth t := by
  simp [depth]

@[simp] theorem depth_append (a b : Text) : depth (a ++ b) = depth a + depth b := by
  simp [depth]

/-- Every parenthesis that is opened is closed, and none before, and there is no quote. -/
structure Closed (t : Text) : Prop where
  quote : '"' ∉ t
  depth_eq : depth t = 0
  nonneg : ∀ a b, t = a ++ b → 0 ≤ depth a

theorem Closed.append (ha : Closed a) (hb : Closed b) : Closed (a ++ b) where
  quote := by simp [ha.quote, hb.quote]
  depth_eq := by rw [depth_append, ha.depth_eq, hb.depth_eq, Int.add_zero]
  nonneg := by
    intro x y h
    rcases List.append_eq_append_iff.1 h with ⟨z, rfl, hrest⟩ | ⟨z, rfl, -⟩
    · rw [depth_append, ha.depth_eq, Int.zero_add]
      exact hb.nonneg z y hrest
    · exact ha.nonneg x z rfl

theorem depth_eq_zero (h : ∀ c ∈ t, weight c = 0) : depth t = 0 := by
  induction t with
  | nil => rfl
  | cons c t ih =>
    obtain ⟨hc, ht⟩ := List.forall_mem_cons.1 h
    rw [depth_cons, hc, ih ht, Int.add_zero]

theorem closed_of_weight (hquote : '"' ∉ t) (h : ∀ c ∈ t, weight c = 0) : Closed t where
  quote := hquote
  depth_eq := depth_eq_zero h
  nonneg := by
    rintro a b rfl
    exact Int.le_of_eq (depth_eq_zero fun c hc => h c (List.mem_append_left b hc)).symm

theorem Nesting.step_of_ne_quote (hc : c ≠ '"') (hd : 0 ≤ d + weight c) :
    (⟨false, d⟩ : Nesting).step c = ⟨false, (d + weight c).toNat⟩ := by
  unfold Nesting.step weight at *
  grind

/-- Where no more parentheses are closed than are open, the count is the depth. -/
theorem nestingAfter_of_nonneg (hquote : '"' ∉ t)
    (h : ∀ a b, t = a ++ b → 0 ≤ (d : Int) + depth a) :
    nestingAfter ⟨false, d⟩ t = ⟨false, (d + depth t).toNat⟩ := by
  induction t generalizing d with
  | nil => simp
  | cons c t ih =>
    rw [List.mem_cons, not_or] at hquote
    have hc : 0 ≤ (d : Int) + weight c := by simpa using h [c] t rfl
    rw [nestingAfter_cons, Nesting.step_of_ne_quote (Ne.symm hquote.1) hc, ih hquote.2]
    · rw [depth_cons, Int.toNat_of_nonneg hc, Int.add_assoc]
    · rintro a b rfl
      have := h (c :: a) b rfl
      rw [depth_cons] at this
      omega

theorem Closed.nestingAfter (h : Closed t) (d : Nat) : nestingAfter ⟨false, d⟩ t = ⟨false, d⟩ := by
  rw [nestingAfter_of_nonneg h.quote, h.depth_eq, Int.add_zero, Int.toNat_natCast]
  intro a b hab
  have := h.nonneg a b hab
  omega

theorem Closed.nestingAfter_outside (h : Closed t) : Text.nestingAfter .outside t = .outside :=
  h.nestingAfter 0

end Depth

section Cut

theorem splitClosing?_append_left (h : ∀ a b, t = a ++ ')' :: b →
    (nestingAfter s a).quoted = true ∨ 1 < (nestingAfter s a).depth) (r : Text) :
    splitClosing? s (t ++ r) =
      (splitClosing? (nestingAfter s t) r).map fun p => (t ++ p.1, p.2) := by
  induction t generalizing s with
  | nil => simp
  | cons c t ih =>
    have hc : ¬(c = ')' ∧ !s.quoted ∧ s.depth ≤ 1) := by
      rintro ⟨rfl, hq, hd⟩
      rcases h [] t rfl with hquoted | hdepth
      · rw [nestingAfter_nil] at hquoted
        rw [hquoted] at hq
        cases hq
      · rw [nestingAfter_nil] at hdepth
        omega
    rw [List.cons_append, splitClosing?, if_neg hc, ih, Option.map_map]
    · rfl
    · rintro a b rfl
      exact h (c :: a) b rfl

/-- One more parenthesis is open. -/
def Nesting.inside (s : Nesting) : Nesting := ⟨s.quoted, s.depth + 1⟩

theorem Nesting.step_inside (h : c = ')' → s ≠ .outside) : s.inside.step c = (s.step c).inside := by
  obtain ⟨quoted, depth⟩ := s
  simp only [Nesting.inside, Nesting.step, Nesting.outside, ne_eq, Nesting.mk.injEq] at *
  grind

/-- Where each parenthesis that closes has one to close, what is open before does not count. -/
theorem nestingAfter_inside (h : ∀ a b, t = a ++ ')' :: b → nestingAfter s a ≠ .outside) :
    nestingAfter s.inside t = (nestingAfter s t).inside := by
  induction t generalizing s with
  | nil => rfl
  | cons c t ih =>
    have hc : c = ')' → s ≠ .outside := by
      rintro rfl
      exact h [] t rfl
    rw [nestingAfter_cons, nestingAfter_cons, Nesting.step_inside hc]
    refine ih ?_
    rintro a b rfl
    exact h (c :: a) b rfl

/-- Outside string literals every parenthesis that is opened is closed, and none before; and every
literal ends. -/
structure Balanced (t : Text) : Prop where
  closes : ∀ a b, t = a ++ ')' :: b → nestingAfter .outside a ≠ .outside
  ends : nestingAfter .outside t = .outside

theorem forall_append_cons_iff {P : Text → Prop} : (∀ a b, t = a ++ c :: b → P a) ↔
    ∀ n < t.length, t[n]? = some c → P (t.take n) := by
  constructor
  · intro h n _ hn
    refine h _ (t.drop (n + 1)) ?_
    obtain ⟨hlt, hget⟩ := List.getElem?_eq_some_iff.1 hn
    rw [← hget, List.getElem_cons_drop, List.take_append_drop]
  · rintro h a b rfl
    have hbefore := h a.length (by simp) (by simp)
    rwa [List.take_left] at hbefore

theorem balanced_iff : Balanced t ↔ (∀ n < t.length, t[n]? = some ')' →
    nestingAfter .outside (t.take n) ≠ .outside) ∧ nestingAfter .outside t = .outside := by
  rw [← forall_append_cons_iff (P := fun a => nestingAfter .outside a ≠ .outside)]
  exact ⟨fun h => ⟨h.closes, h.ends⟩, fun h => ⟨h.1, h.2⟩⟩

instance (t : Text) : Decidable (Balanced t) := decidable_of_iff _ balanced_iff.symm

/-- What holds before a character of some kind in two texts holds in both of them together, if the
first leaves nothing open. -/
theorem forall_append_eq {P : Nesting → Prop} (ha : ∀ x y, a = x ++ c :: y → P (nestingAfter s x))
    (hends : nestingAfter s a = s) (hb : ∀ x y, b = x ++ c :: y → P (nestingAfter s x))
    (x y : Text) (h : a ++ b = x ++ c :: y) : P (nestingAfter s x) := by
  rcases List.append_eq_append_iff.1 h with ⟨z, rfl, hrest⟩ | ⟨z, hz, hrest⟩
  · rw [nestingAfter_append, hends]
    exact hb z y hrest
  · cases z with
    | nil =>
      rw [List.append_nil] at hz
      rw [← hz, hends]
      exact hb [] y hrest.symm
    | cons d z =>
      obtain ⟨rfl, -⟩ := List.cons.inj hrest
      exact ha x z hz

theorem Balanced.append (ha : Balanced a) (hb : Balanced b) : Balanced (a ++ b) where
  closes := forall_append_eq (P := (· ≠ Nesting.outside)) ha.closes ha.ends hb.closes
  ends := by rw [nestingAfter_append, ha.ends, hb.ends]

theorem Balanced.splitCall? (h : Balanced t) (r : Text) :
    splitCall? (t ++ ')' :: r) = some (t, r) := by
  unfold Text.splitCall?
  change splitClosing? Nesting.outside.inside (t ++ ')' :: r) = some (t, r)
  rw [splitClosing?_append_left, nestingAfter_inside h.closes, h.ends]
  · simp [splitClosing?, Nesting.inside, Nesting.outside]
  · rintro a b rfl
    have hopen := h.closes a b rfl
    rw [nestingAfter_inside fun a' b' ha => h.closes a' (b' ++ ')' :: b) (by simp [ha])]
    generalize nestingAfter .outside a = s at hopen
    obtain ⟨quoted, depth⟩ := s
    simp only [Nesting.outside, ne_eq, Nesting.mk.injEq] at hopen
    simp only [Nesting.inside]
    grind

theorem Closed.balanced (h : Closed t) : Balanced t where
  closes := by
    rintro a b rfl
    have hnext := h.nonneg (a ++ [')']) b (by simp)
    have hweight : weight ')' = -1 := rfl
    rw [depth_append, depth_cons, hweight, depth_nil] at hnext
    have hquote : '"' ∉ a := fun hq => h.quote (List.mem_append_left _ hq)
    have hafter := nestingAfter_of_nonneg (d := 0) hquote fun a' b' ha => by
      have := h.nonneg a' (b' ++ ')' :: b) (by simp [ha])
      omega
    intro hout
    have hdepth := congrArg Nesting.depth (hafter.symm.trans hout)
    simp only [Nesting.outside] at hdepth
    omega
  ends := h.nestingAfter_outside

/-- Up to the next comma at top level a text is one part. -/
theorem splitFrom_append_of_isTop (h : ∀ a b, t = a ++ ',' :: b → (nestingAfter s a).isTop = false)
    (r : Text) : splitFrom s (t ++ r) = (splitFrom (nestingAfter s t) r).modifyHead (t ++ ·) := by
  induction t generalizing s with
  | nil =>
    obtain ⟨p, ps, hp⟩ := List.exists_cons_of_ne_nil (splitFrom_ne_nil s r)
    simp [hp]
  | cons c t ih =>
    obtain ⟨p, ps, hp⟩ := List.exists_cons_of_ne_nil (splitFrom_ne_nil (nestingAfter s (c :: t)) r)
    have hc : ¬(c = ',' ∧ s.isTop = true) := by
      rintro ⟨rfl, htop⟩
      rw [← nestingAfter_nil (s := s), h [] t rfl] at htop
      cases htop
    rw [List.cons_append, splitFrom, if_neg hc, ih, ← nestingAfter_cons, hp]
    · rfl
    · rintro a b rfl
      exact h (c :: a) b rfl

end Cut

end Spreadsheet.Text
