import Spreadsheet.Text.Blank

/-!
Cutting a text after its leading characters of a class, at the first occurrence of a character,
and at an offset counted in bytes of its UTF-8 encoding.
-/
namespace Spreadsheet.Text

/-- The longest leading part with all its characters in `p`, and the rest. -/
def splitWhile (p : Char → Bool) (t : Text) : Text × Text := (t.takeWhile p, t.dropWhile p)

/-- The parts before and after the first `sep`. -/
def cutAt? (sep : Char) : Text → Option (Text × Text)
  | [] => none
  | c :: r => if c = sep then some ([], r) else (cutAt? sep r).map fun p => (c :: p.1, p.2)

def utf8Length : Text → Nat
  | [] => 0
  | c :: r => c.utf8Size + utf8Length r

/-- The characters that start before byte `n`, and the others. -/
def splitAtByte : (n : Nat) → Text → Text × Text
  | 0, t => ([], t)
  | _ + 1, [] => ([], [])
  | n + 1, c :: r =>
    let (before, after) := splitAtByte (n + 1 - c.utf8Size) r
    (c :: before, after)

theorem splitWhile_append (p : Char → Bool) (t : Text) :
    (splitWhile p t).1 ++ (splitWhile p t).2 = t := List.takeWhile_append_dropWhile

theorem splitWhile_append_of_all {p : Char → Bool} {a b : Text} (ha : ∀ c ∈ a, p c = true)
    (hb : ∀ c ∈ b.head?, p c = false) : splitWhile p (a ++ b) = (a, b) := by
  have hnone : b.takeWhile p = [] ∧ b.dropWhile p = b := by
    cases b with
    | nil => exact ⟨rfl, rfl⟩
    | cons c b => simp [hb c rfl]
  rw [splitWhile, List.takeWhile_append_of_pos ha, List.dropWhile_append_of_pos ha, hnone.1,
    hnone.2, List.append_nil]

@[simp] theorem utf8Length_nil : utf8Length [] = 0 := rfl

@[simp] theorem utf8Length_cons (c : Char) (t : Text) :
    utf8Length (c :: t) = c.utf8Size + utf8Length t := rfl

@[simp] theorem utf8Length_append (a b : Text) :
    utf8Length (a ++ b) = utf8Length a + utf8Length b := by
  induction a with
  | nil => simp
  | cons c a ih => simp [ih, Nat.add_assoc]

theorem splitAtByte_append (n : Nat) (t : Text) :
    (splitAtByte n t).1 ++ (splitAtByte n t).2 = t := by
  induction t generalizing n with
  | nil => cases n <;> rfl
  | cons c t ih => cases n <;> simp [splitAtByte, ih]

theorem splitAtByte_utf8Length (a b : Text) : splitAtByte (utf8Length a) (a ++ b) = (a, b) := by
  induction a with
  | nil => cases b <;> rfl
  | cons c a ih =>
    obtain ⟨k, hk⟩ : ∃ k, c.utf8Size = k + 1 := ⟨c.utf8Size - 1, by have := c.utf8Size_pos; omega⟩
    have h : k + 1 + utf8Length a = k + utf8Length a + 1 := by omega
    rw [List.cons_append, utf8Length_cons, hk, h, splitAtByte]
    have h' : k + utf8Length a + 1 - c.utf8Size = utf8Length a := by omega
    rw [h', ih]

theorem cutAt?_eq_some_iff {sep : Char} {t a b : Text} :
    cutAt? sep t = some (a, b) ↔ t = a ++ sep :: b ∧ sep ∉ a := by
  induction t generalizing a with
  | nil => simp [cutAt?]
  | cons c t ih =>
    by_cases hc : c = sep
    · subst hc
      cases a <;> simp_all [cutAt?]
    · cases a with
      | nil => simp [cutAt?, hc]
      | cons x a => simp [cutAt?, hc, Option.map_eq_some_iff, ih]; grind

end Spreadsheet.Text
