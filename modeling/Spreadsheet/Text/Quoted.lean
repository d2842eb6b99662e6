import Spreadsheet.Text.Blank

/-!
String literals: a text between quotes, with each quote of the text written twice. Blanks around a
literal do not count. Main statement: the texts that `literal?` reads are exactly the written forms.
-/
namespace Spreadsheet.Text

def escape : Text → Text
  | [] => []
  | c :: r => if c = '"' then '"' :: '"' :: escape r else c :: escape r

/-- The text whose quotes are doubled in the given one; none if a quote stands alone. -/
def unescape? : Text → Option Text
  | [] => some []
  | '"' :: '"' :: r => (unescape? r).map ('"' :: ·)
  | c :: r => if c = '"' then none else (unescape? r).map (c :: ·)

def quote (t : Text) : Text := '"' :: escape t ++ ['"']

/-- The text of a literal without blanks around it. -/
def bareLiteral? : Text → Option Text
  | [] => none
  | c :: r => if c = '"' ∧ r.getLast? = some '"' then unescape? r.dropLast else none

def literal? (t : Text) : Option Text := bareLiteral? (trim t)

def isLiteral (t : Text) : Bool := (literal? t).isSome

/-- The text of a literal; any other text comes back trimmed. -/
def unquote (t : Text) : Text := (literal? t).getD (trim t)

theorem unescape?_escape (t : Text) : unescape? (escape t) = some t := by
  induction t with
  | nil => rfl
  | cons c r ih => by_cases h : c = '"' <;> simp [escape, unescape?, h, ih]

theorem escape_of_unescape? {s t : Text} (h : unescape? s = some t) : s = escape t := by
  fun_induction unescape? s generalizing t with
  | case1 => simp_all [escape]
  | case2 r ih =>
    obtain ⟨u, hu, rfl⟩ := Option.map_eq_some_iff.1 h
    simp [escape, ← ih hu]
  | case3 => cases h
  | case4 c r _ hc ih =>
    obtain ⟨u, hu, rfl⟩ := Option.map_eq_some_iff.1 h
    simp [escape, hc, ← ih hu]

theorem unescape?_eq_some_iff {s t : Text} : unescape? s = some t ↔ s = escape t :=
  ⟨escape_of_unescape?, fun h => h ▸ unescape?_escape t⟩

theorem bareLiteral?_eq_some_iff {s t : Text} : bareLiteral? s = some t ↔ s = quote t := by
  cases s with
  | nil => simp [bareLiteral?, quote]
  | cons c r =>
    simp only [bareLiteral?, quote, Option.ite_none_right_eq_some, unescape?_eq_some_iff,
      List.cons_append, List.cons.injEq, and_assoc, and_congr_right_iff]
    intro _
    constructor
    · rintro ⟨hl, he⟩
      obtain ⟨u, rfl⟩ := List.getLast?_eq_some_iff.1 hl
      rw [← he, List.dropLast_concat]
    · rintro rfl
      simp

end Spreadsheet.Text
