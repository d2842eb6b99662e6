import Mathlib.Data.List.Induction
import Spreadsheet.Proofs.Text.Nesting

/-!
The places of a text outside string literals and parentheses, told by what stands before them: plain
characters, whole literals, whole parts in parentheses, and closing parentheses that have nothing to
close. Main statement: these are the places where nothing is left open.
-/
namespace Spreadsheet.Text

variable {strays : Bool} {s : Nesting} {d : Nat} {t a b : Text}

/-- The text leaves nothing open. Closing parentheses that have nothing to close stand in it only with
`strays`. A literal with a doubled quote in it is two literals here, one right after the other. -/
inductive Whole : Bool → Text → Prop
  | nil {strays : Bool} : Whole strays []
  | plain {strays : Bool} {a : Text} {c : Char} (ha : Whole strays a) (hquote : c ≠ '"')
      (hopen : c ≠ '(') (hclose : c ≠ ')') : Whole strays (a ++ [c])
  | literal {strays : Bool} {a b : Text} (ha : Whole strays a) (hb : '"' ∉ b) :
      Whole strays (a ++ '"' :: (b ++ ['"']))
  | parens {strays : Bool} {a b : Text} (ha : Whole strays a) (hb : Whole false b) :
      Whole strays (a ++ '(' :: (b ++ [')']))
  | stray {a : Text} (ha : Whole true a) : Whole true (a ++ [')'])

/-- The place behind the text is outside string literals and parentheses. -/
def Top (before : Text) : Prop := Whole true before

theorem nestingAfter_of_quoted (h : '"' ∉ t) : nestingAfter ⟨true, d⟩ t = ⟨true, d⟩ := by
  induction t with
  | nil => rfl
  | cons c t ih =>
    rw [List.mem_cons, not_or] at h
    have hstep : (⟨true, d⟩ : Nesting).step c = ⟨true, d⟩ := by simp [Nesting.step, Ne.symm h.1]
    rw [nestingAfter_cons, hstep, ih h.2]

theorem Whole.nestingAfter (h : Whole strays t) (hd : strays = true → d = 0) :
    nestingAfter ⟨false, d⟩ t = ⟨false, d⟩ := by
  induction h generalizing d with
  | nil => rfl
  | plain _ hquote hopen hclose ih =>
    rw [nestingAfter_append, ih hd]
    exact nestingAfter_of_not_mem (by simp [Ne.symm hquote]) (by simp [Ne.symm hopen])
      (by simp [Ne.symm hclose])
  | literal _ hb ih =>
    have hin : (⟨false, d⟩ : Nesting).step '"' = ⟨true, d⟩ := rfl
    rw [nestingAfter_append, ih hd, nestingAfter_cons, hin, nestingAfter_append,
      nestingAfter_of_quoted hb]
    rfl
  | parens _ _ iha ihb =>
    have hin : (⟨false, d⟩ : Nesting).step '(' = ⟨false, d + 1⟩ := rfl
    rw [nestingAfter_append, iha hd, nestingAfter_cons, hin, nestingAfter_append, ihb nofun]
    rfl
  | stray _ ih =>
    obtain rfl := hd rfl
    rw [nestingAfter_append, ih hd]
    rfl

/-- What is open after a text: a parenthesis for each level, with a whole text behind it, and at last
the quote of a literal that has not ended. -/
inductive Opens : Nesting → Text → Prop
  | top {a : Text} (ha : Top a) : Opens ⟨false, 0⟩ a
  | paren {d : Nat} {a b : Text} (ha : Opens ⟨false, d⟩ a) (hb : Whole false b) :
      Opens ⟨false, d + 1⟩ (a ++ '(' :: b)
  | quote {d : Nat} {a b : Text} (ha : Opens ⟨false, d⟩ a) (hb : '"' ∉ b) :
      Opens ⟨true, d⟩ (a ++ '"' :: b)

/-- What leaves a text whole where it is added changes nothing of what is open. -/
theorem Opens.append (h : Opens ⟨false, d⟩ a)
    (hb : ∀ {strays : Bool} {w : Text}, Whole strays w → Whole strays (w ++ b)) :
    Opens ⟨false, d⟩ (a ++ b) := by
  cases h with
  | top ha => exact .top (hb ha)
  | @paren d a w ha hw =>
    rw [List.append_assoc, List.cons_append]
    exact .paren ha (hb hw)

theorem Opens.step (h : Opens s a) (c : Char) : Opens (s.step c) (a ++ [c]) := by
  obtain ⟨quoted, d⟩ := s
  cases quoted with
  | true =>
    cases h with
    | @quote d a b ha hb =>
      rw [List.append_assoc, List.cons_append]
      by_cases hc : c = '"'
      · subst c
        exact ha.append fun hw => hw.literal hb
      · have hstep : (⟨true, d⟩ : Nesting).step c = ⟨true, d⟩ := by simp [Nesting.step, hc]
        rw [hstep]
        exact .quote ha (by simp [hb, Ne.symm hc])
  | false =>
    by_cases hquote : c = '"'
    · subst c
      exact .quote h (by simp)
    · by_cases hopen : c = '('
      · subst c
        exact .paren h .nil
      · by_cases hclose : c = ')'
        · subst c
          cases h with
          | top ha => exact .top ha.stray
          | paren ha hb =>
            rw [List.append_assoc, List.cons_append]
            exact ha.append fun hw => hw.parens hb
        · have hstep : (⟨false, d⟩ : Nesting).step c = ⟨false, d⟩ := by
            simp [Nesting.step, hquote, hopen, hclose]
          rw [hstep]
          exact h.append fun hw => hw.plain hquote hopen hclose

theorem opens_nestingAfter (t : Text) : Opens (nestingAfter .outside t) t := by
  induction t using List.reverseRecOn with
  | nil => exact .top .nil
  | append_singleton t c ih =>
    rw [nestingAfter_append]
    exact ih.step c

theorem top_iff : Top t ↔ nestingAfter .outside t = .outside := by
  constructor
  · intro h
    exact h.nestingAfter fun _ => rfl
  · intro h
    have hopens := opens_nestingAfter t
    rw [h] at hopens
    cases hopens with
    | top ht => exact ht

instance (t : Text) : Decidable (Top t) := decidable_of_iff _ top_iff.symm

example : Top "MAX(\")\"))+".toList ∧ ¬Top "MAX(\")\"".toList := by decide

end Spreadsheet.Text
