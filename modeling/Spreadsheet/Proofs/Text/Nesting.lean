import Spreadsheet.Text.Nesting

/-!
Where the cuts through formula text fall. The parenthesis that closes a call and the commas between
arguments stand outside string literals. Main statement: every part between commas at top level stands
after a comma or at the start, outside string literals.
-/
namespace Spreadsheet.Text

variable {s : Nesting} {q : Bool} {c : Char} {t a b : Text}

/-- Whether a text that starts inside a string literal or not ends inside one. -/
def quotedAfter (q : Bool) (t : Text) : Bool := t.foldl (fun q c => if c = '"' then !q else q) q

/-- What is open after a text. -/
def nestingAfter (s : Nesting) (t : Text) : Nesting := t.foldl Nesting.step s

@[simp] theorem quotedAfter_nil : quotedAfter q [] = q := rfl

theorem quotedAfter_cons : quotedAfter q (c :: t) = quotedAfter (if c = '"' then !q else q) t := rfl

theorem quotedAfter_append : quotedAfter q (a ++ b) = quotedAfter (quotedAfter q a) b :=
  List.foldl_append

@[simp] theorem nestingAfter_nil : nestingAfter s [] = s := rfl

theorem nestingAfter_cons : nestingAfter s (c :: t) = nestingAfter (s.step c) t := rfl

theorem nestingAfter_append : nestingAfter s (a ++ b) = nestingAfter (nestingAfter s a) b :=
  List.foldl_append

theorem quotedAfter_of_not_mem (h : '"' ∉ t) : quotedAfter q t = q := by
  induction t with
  | nil => rfl
  | cons c t ih =>
    rw [List.mem_cons, not_or] at h
    obtain ⟨hc, ht⟩ := h
    rw [quotedAfter_cons, if_neg (Ne.symm hc), ih ht]

theorem Nesting.quoted_step (s : Nesting) (c : Char) :
    (s.step c).quoted = if c = '"' then !s.quoted else s.quoted := by
  unfold step
  split
  · rfl
  · split
    · rfl
    · split
      · simp_all
      · split <;> simp_all

theorem quoted_nestingAfter : (nestingAfter s t).quoted = quotedAfter s.quoted t := by
  induction t generalizing s with
  | nil => rfl
  | cons c t ih => rw [nestingAfter_cons, ih, Nesting.quoted_step, quotedAfter_cons]

theorem nestingAfter_of_not_mem (hquote : '"' ∉ t) (hopen : '(' ∉ t) (hclose : ')' ∉ t) :
    nestingAfter s t = s := by
  induction t with
  | nil => rfl
  | cons c t ih =>
    simp only [List.mem_cons, not_or] at hquote hopen hclose
    have hstep : s.step c = s := by
      simp [Nesting.step, Ne.symm hquote.1, Ne.symm hopen.1, Ne.symm hclose.1]
    rw [nestingAfter_cons, hstep, ih hquote.2 hopen.2 hclose.2]

theorem quotedAfter_of_isTop (h : (nestingAfter s t).isTop = true) :
    quotedAfter s.quoted t = false := by
  rw [← quoted_nestingAfter]
  simp only [Nesting.isTop, Bool.and_eq_true, Bool.not_eq_true'] at h
  exact h.1

theorem quotedAfter_of_splitClosing? (h : splitClosing? s t = some (a, b)) :
    quotedAfter s.quoted a = false := by
  induction t generalizing s a with
  | nil => cases h
  | cons c r ih =>
    rw [splitClosing?] at h
    split at h
    · rename_i hc
      split at h
      · cases h
      · obtain ⟨rfl, -⟩ := Prod.mk.inj (Option.some.inj h)
        simpa using hc.2.1
    · obtain ⟨p, hp, he⟩ := Option.map_eq_some_iff.1 h
      obtain ⟨rfl, rfl⟩ := Prod.mk.inj he
      rw [quotedAfter_cons, ← Nesting.quoted_step]
      exact ih hp

/-- A call that is closed stays closed where more text follows. -/
theorem splitClosing?_append_right (h : splitClosing? s t = some (a, b)) (w : Text) :
    splitClosing? s (t ++ w) = some (a, b ++ w) := by
  induction t generalizing s a with
  | nil => cases h
  | cons c r ih =>
    rw [splitClosing?] at h
    rw [List.cons_append, splitClosing?]
    split at h
    · rename_i hc
      rw [if_pos hc]
      split at h
      · cases h
      · rename_i hd
        obtain ⟨rfl, rfl⟩ := Prod.mk.inj (Option.some.inj h)
        rw [if_neg hd]
    · rename_i hc
      obtain ⟨p, hp, he⟩ := Option.map_eq_some_iff.1 h
      obtain ⟨rfl, rfl⟩ := Prod.mk.inj he
      rw [if_neg hc, ih hp, Option.map_some]

/-- The parts between top commas: the first starts where the text starts, and every other one
after a comma outside string literals; each ends before a comma or with the text. -/
theorem splitFrom_eq_cons (s : Nesting) (t : Text) : ∃ p ps, splitFrom s t = p :: ps ∧
    (∃ b, t = p ++ b ∧ ∀ c ∈ b.head?, c = ',') ∧
    ∀ p ∈ ps, ∃ a b, t = a ++ p ++ b ∧ a.getLast? = some ',' ∧ quotedAfter s.quoted a = false ∧
      ∀ c ∈ b.head?, c = ',' := by
  induction t generalizing s with
  | nil => exact ⟨[], [], rfl, ⟨[], rfl, by simp⟩, by simp⟩
  | cons c r ih =>
    rw [splitFrom]
    by_cases hc : c = ',' ∧ s.isTop
    · obtain ⟨p, ps, he, ⟨b, hb, hhead⟩, hps⟩ := ih s
      have hq : s.quoted = false := quotedAfter_of_isTop (t := []) hc.2
      refine ⟨[], p :: ps, by rw [if_pos hc, he], ⟨c :: r, rfl, by simpa using hc.1⟩, ?_⟩
      obtain rfl := hc.1
      intro p' hp'
      rcases List.mem_cons.1 hp' with rfl | hp'
      · exact ⟨[','], b, by rw [hb]; rfl, rfl, by rw [quotedAfter_cons]; exact hq, hhead⟩
      · obtain ⟨a, b', ht, hlast, hqa, hhead'⟩ := hps p' hp'
        refine ⟨',' :: a, b', by rw [ht]; rfl, ?_, by rw [quotedAfter_cons]; exact hqa, hhead'⟩
        rw [List.getLast?_cons, hlast]
        rfl
    · obtain ⟨p, ps, he, ⟨b, hb, hhead⟩, hps⟩ := ih (s.step c)
      refine ⟨c :: p, ps, by rw [if_neg hc, he], ⟨b, by rw [hb]; rfl, hhead⟩, ?_⟩
      intro p' hp'
      obtain ⟨a, b', ht, hlast, hqa, hhead'⟩ := hps p' hp'
      refine ⟨c :: a, b', by rw [ht]; rfl, ?_, ?_, hhead'⟩
      · rw [List.getLast?_cons, hlast]
        rfl
      · rw [quotedAfter_cons, ← Nesting.quoted_step]
        exact hqa

theorem exists_of_mem_splitFrom {p : Text} (h : p ∈ splitFrom .outside t) : ∃ a b,
    t = a ++ p ++ b ∧ quotedAfter false a = false ∧ (∀ c ∈ a.getLast?, c = ',') ∧
      ∀ c ∈ b.head?, c = ',' := by
  obtain ⟨p₀, ps, he, ⟨b, hb, hhead⟩, hps⟩ := splitFrom_eq_cons .outside t
  rw [he] at h
  rcases List.mem_cons.1 h with rfl | h
  · exact ⟨[], b, hb, rfl, by simp, hhead⟩
  · obtain ⟨a, b, ht, hlast, hqa, hhead⟩ := hps p h
    refine ⟨a, b, ht, hqa, fun c hc => ?_, hhead⟩
    rw [hlast] at hc
    exact (Option.mem_some.1 hc).symm

end Spreadsheet.Text
