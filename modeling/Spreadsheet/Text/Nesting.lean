import Spreadsheet.Text.Cut

/-!
Where a character of formula text stands: inside a string literal or not, and inside how many
parentheses. A closing parenthesis with nothing open is ignored, an unterminated literal runs to
the end. On this rest the masking of literals, the search at top level, the cutting of argument
lists, and the search for the parenthesis that closes a call.
-/
namespace Spreadsheet.Text

structure Nesting where
  quoted : Bool
  depth : Nat
  deriving DecidableEq

namespace Nesting

def outside : Nesting := ⟨false, 0⟩

def step (s : Nesting) (c : Char) : Nesting :=
  if c = '"' then ⟨!s.quoted, s.depth⟩
  else if s.quoted then s
  else if c = '(' then ⟨false, s.depth + 1⟩
  else if c = ')' then ⟨false, s.depth - 1⟩
  else s

def isTop (s : Nesting) : Bool := !s.quoted && s.depth == 0

end Nesting

/-- As many blanks as the character has bytes. -/
def blanked (c : Char) : Text := List.replicate c.utf8Size ' '

def maskFrom (quoted : Bool) : Text → Text
  | [] => []
  | c :: r =>
    if c = '"' then c :: maskFrom (!quoted) r
    else (if quoted then blanked c else [c]) ++ maskFrom quoted r

/-- The text with the inside of every string literal blanked. -/
def mask (t : Text) : Text := maskFrom false t

def hideFrom (depth : Nat) : Text → Text
  | [] => []
  | c :: r =>
    if c = '(' then ' ' :: hideFrom (depth + 1) r
    else if c = ')' then ' ' :: hideFrom (depth - 1) r
    else (if depth = 0 then [c] else blanked c) ++ hideFrom depth r

/-- The text with literals and parenthesised parts blanked. -/
def topLevel (t : Text) : Text := hideFrom 0 (mask t)

/-- The byte offset of the first occurrence of `part`. -/
def findPart? (part : Text) : Text → Option Nat
  | [] => if part = [] then some 0 else none
  | c :: r =>
    if part.isPrefixOf (c :: r) then some 0 else (findPart? part r).map (c.utf8Size + ·)

/-- The first of the candidates that occurs at top level, with the byte offset of its first
occurrence there. -/
def findTopLevel? (t : Text) (candidates : List Text) : Option (Nat × Text) :=
  let shown := topLevel t
  candidates.findSome? fun part => (findPart? part shown).map (·, part)

def splitFrom (s : Nesting) : Text → List Text
  | [] => [[]]
  | c :: r =>
    if c = ',' ∧ s.isTop then [] :: splitFrom s r
    else
      match splitFrom (s.step c) r with
      | [] => [[c]]
      | part :: parts => (c :: part) :: parts

/-- The arguments of a list: the parts between commas at top level, trimmed. A blank list has none. -/
def splitArguments (t : Text) : List Text :=
  if trim t = [] then [] else (splitFrom .outside t).map trim

/-- The text up to the parenthesis that closes the outermost one, and the text after it. -/
def splitClosing? (s : Nesting) : Text → Option (Text × Text)
  | [] => none
  | c :: r =>
    if c = ')' ∧ !s.quoted ∧ s.depth ≤ 1 then
      if s.depth = 0 then none else some ([], r)
    else (splitClosing? (s.step c) r).map fun p => (c :: p.1, p.2)

/-- The text inside a call whose opening parenthesis has just been read, and the text after it. -/
def splitCall? (t : Text) : Option (Text × Text) := splitClosing? ⟨false, 1⟩ t

/-- The byte offset of the parenthesis that matches the one at byte `start`. -/
def matchingParen? (t : Text) (start : Nat) : Option Nat :=
  (splitClosing? .outside (splitAtByte start t).2).map fun p => start + utf8Length p.1

@[simp] theorem utf8Size_blank : (' ' : Char).utf8Size = 1 := rfl

@[simp] theorem utf8Length_replicate_blank (n : Nat) :
    utf8Length (List.replicate n ' ') = n := by
  induction n with
  | zero => rfl
  | succ n ih => rw [List.replicate_succ, utf8Length_cons, ih, utf8Size_blank, Nat.add_comm]

@[simp] theorem utf8Length_blanked (c : Char) : utf8Length (blanked c) = c.utf8Size :=
  utf8Length_replicate_blank _

theorem utf8Length_maskFrom (quoted : Bool) (t : Text) :
    utf8Length (maskFrom quoted t) = utf8Length t := by
  induction t generalizing quoted with
  | nil => rfl
  | cons c r ih => by_cases h : c = '"' <;> cases quoted <;> simp [maskFrom, h, ih]

theorem utf8Length_mask (t : Text) : utf8Length (mask t) = utf8Length t := utf8Length_maskFrom _ t

theorem splitFrom_ne_nil (s : Nesting) (t : Text) : splitFrom s t ≠ [] := by
  cases t with
  | nil => simp [splitFrom]
  | cons c r =>
    rw [splitFrom]
    split
    · simp
    · split <;> simp

theorem splitClosing?_append {s : Nesting} {t a b : Text} (h : splitClosing? s t = some (a, b)) :
    t = a ++ ')' :: b := by
  induction t generalizing s a with
  | nil => simp [splitClosing?] at h
  | cons c r ih =>
    rw [splitClosing?] at h
    split at h
    · split at h <;> simp_all
    · obtain ⟨p, hp, hq⟩ := Option.map_eq_some_iff.1 h
      simp only [Prod.mk.injEq] at hq
      obtain ⟨rfl, rfl⟩ := hq
      simp [← ih hp]

theorem splitCall?_append {t a b : Text} (h : splitCall? t = some (a, b)) : t = a ++ ')' :: b :=
  splitClosing?_append h

end Spreadsheet.Text
