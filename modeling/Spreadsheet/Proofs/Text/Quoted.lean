import Spreadsheet.Proofs.Text.Part
import Spreadsheet.Text.Quoted

/-!
String literals as the written forms of texts. A text between quotes is a literal if no quote is left
in it once every pair of quotes, told from left to right, is taken out, and then it stands for the text
with one quote in place of each pair. Main statement: these are exactly the written forms, each of which
stands for the text that it was written for, and no other text changes but for the blanks around it.
-/
namespace Spreadsheet.Text

variable {s t m : Text}

section Pairs

/-- The text with `new` in place of each pair of quotes, the pairs told from left to right. -/
def replacePairs (new : Text) : Text → Text
  | [] => []
  | '"' :: '"' :: r => new ++ replacePairs new r
  | c :: r => c :: replacePairs new r

theorem unescape?_eq (t : Text) : unescape? t =
    if '"' ∈ replacePairs [] t then none else some (replacePairs ['"'] t) := by
  fun_induction unescape? t with
  | case1 => rfl
  | case2 r ih =>
    rw [ih, replacePairs, replacePairs]
    split <;> simp_all
  | case3 r hr =>
    rw [replacePairs, if_pos List.mem_cons_self]
    exact hr
  | case4 c r hr hc ih =>
    rw [ih, replacePairs, replacePairs]
    · simp only [List.mem_cons, Ne.symm hc, false_or]
      split <;> rfl
    · exact hr
    · exact hr

/-- A text has its quotes doubled exactly if no quote stands alone in it, and then one quote in place
of each pair gives the text before. -/
theorem eq_escape_iff : m = escape s ↔ '"' ∉ replacePairs [] m ∧ replacePairs ['"'] m = s := by
  rw [← unescape?_eq_some_iff, unescape?_eq]
  split <;> simp_all

end Pairs

theorem trimmed_quote (s : Text) : Trimmed (quote s) where
  head := by
    rintro c hc
    obtain rfl := Option.some.inj hc
    decide
  last := by
    intro c hc
    rw [quote, List.getLast?_concat] at hc
    obtain rfl := Option.some.inj hc
    decide

theorem trim_quote (s : Text) : trim (quote s) = quote s := trim_of_trimmed (trimmed_quote s)

theorem literal?_eq_some_iff : literal? t = some s ↔ trim t = quote s := bareLiteral?_eq_some_iff

theorem isLiteral_iff : isLiteral t = true ↔ ∃ s, trim t = quote s := by
  simp only [isLiteral, Option.isSome_iff_exists, literal?_eq_some_iff]

theorem unquote_of_trim_eq_quote (h : trim t = quote s) : unquote t = s := by
  rw [unquote, literal?_eq_some_iff.2 h, Option.getD_some]

theorem unquote_of_forall_ne (h : ∀ s, trim t ≠ quote s) : unquote t = trim t := by
  have hnone : literal? t = none := by
    rw [Option.eq_none_iff_forall_not_mem]
    exact fun s hs => h s (literal?_eq_some_iff.1 hs)
  rw [unquote, hnone, Option.getD_none]

/-- The written form of a text stands for that text. A text is a literal exactly if it is, without the
blanks around it, the written form of some text, which it then stands for; any other text comes back
without the blanks around it. Literals are told by their pairs: a text between quotes is one exactly if
no quote is left in it once the pairs are taken out. -/
theorem unquote_spec (t : Text) :
    unquote (quote t) = t ∧
      (isLiteral t = true ↔ ∃ s, trim t = quote s) ∧
      (∀ s, trim t = quote s → unquote t = s) ∧
      ((∀ s, trim t ≠ quote s) → unquote t = trim t) ∧
      ∀ m, trim t = '"' :: m ++ ['"'] → (isLiteral t = true ↔ '"' ∉ replacePairs [] m) := by
  refine ⟨unquote_of_trim_eq_quote (trim_quote t), isLiteral_iff, fun s => unquote_of_trim_eq_quote,
    unquote_of_forall_ne, fun m hm => ?_⟩
  rw [isLiteral_iff, hm]
  constructor
  · rintro ⟨s, hs⟩
    have hinner : m = escape s := List.append_cancel_right (List.cons.inj hs).2
    exact (eq_escape_iff.1 hinner).1
  · intro hpairs
    have hinner : m = escape (replacePairs ['"'] m) := eq_escape_iff.2 ⟨hpairs, rfl⟩
    exact ⟨_, congrArg (fun m => '"' :: m ++ ['"']) hinner⟩

/-- A literal with blanks around it and quotes beside its outer ones. A text of three quotes is none. -/
theorem unquote_spec_outer :
    trim " \"\"\"a\"\"\" ".toList = quote "\"a\"".toList ∧
      unquote " \"\"\"a\"\"\" ".toList = "\"a\"".toList ∧
      trim "\"\"\"".toList = '"' :: ['"'] ++ ['"'] ∧ '"' ∈ replacePairs [] ['"'] ∧
      (∀ s, trim "\"\"\"".toList ≠ quote s) ∧ unquote "\"\"\"".toList = "\"\"\"".toList := by
  have htrim : trim " \"\"\"a\"\"\" ".toList = quote "\"a\"".toList := by decide
  have hthree : trim "\"\"\"".toList = '"' :: ['"'] ++ ['"'] := by decide
  have hlone : '"' ∈ replacePairs [] ['"'] := by decide
  obtain ⟨-, hliteral, -, hother, hpairs⟩ := unquote_spec "\"\"\"".toList
  have hnone : ∀ s, trim "\"\"\"".toList ≠ quote s := fun s hs =>
    (hpairs _ hthree).1 (hliteral.2 ⟨s, hs⟩) hlone
  exact ⟨htrim, (unquote_spec _).2.2.1 _ htrim, hthree, hlone, hnone, hother hnone⟩

end Spreadsheet.Text
