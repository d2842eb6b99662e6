import Spreadsheet.Range

/-!
Reference tokens. A candidate is a longest stretch of text of the shape of a reference, or of two
joined by a colon. It counts only if it stands on its own: no letter, digit, underscore or dollar
sign touches it, and no parenthesis opens after it. When only the tail of a pair is spoilt, its
first reference still counts.
-/
namespace Spreadsheet.Formula

inductive Token where
  | cell (r : Reference)
  | range (start stop : Reference)
  deriving DecidableEq, Repr

namespace Token

/-- The cells that the token covers. -/
def area : Token → Range
  | .cell r => .single r.cell
  | .range a b => .ofCorners a.cell b.cell

def isRange : Token → Bool
  | .cell _ => false
  | .range _ _ => true

def references : Token → List Reference
  | .cell r => [r]
  | .range a b => [a, b]

def text : Token → Text
  | .cell r => r.text
  | .range a b => a.text ++ ':' :: b.text

/-- The token after a move of its formula, unless it leaves the grid. -/
def shift? (t : Token) (rows cols : Int) : Option Token :=
  match t with
  | .cell r => (r.shift? rows cols).map .cell
  | .range a b => do return .range (← a.shift? rows cols) (← b.shift? rows cols)

end Token

/-- A piece of formula text: a character by itself, or a token with its text. -/
inductive Piece where
  | plain (c : Char)
  | token (text : Text) (token : Token)
  deriving DecidableEq

namespace Piece

def text : Piece → Text
  | .plain c => [c]
  | .token t _ => t

def ofText (t : Text) : List Piece := t.map .plain

@[simp] theorem flatMap_text_ofText (t : Text) : (ofText t).flatMap text = t := by
  induction t with
  | nil => rfl
  | cons c t ih => simpa [ofText, text] using ih

end Piece

def isNameChar (c : Char) : Bool := c.isAlphanum || c == '_'

/-- Whether a token may begin after the given character. -/
def opensToken (before : Option Char) : Bool :=
  before.all fun c => !(isNameChar c || c == '$')

/-- Whether a token may end before the given character. -/
def closesToken (after : Option Char) : Bool :=
  after.all fun c => !(isNameChar c || c == '$' || c == '(')

/-- A leading text of the shape of a reference, and the rest. -/
def splitReference? (t : Text) : Option (Text × Text) :=
  let (anchoredCol, r) := Reference.splitAnchor t
  let (letters, r) := Text.splitWhile Char.isUpper r
  let (anchoredRow, r) := Reference.splitAnchor r
  let (digits, r) := Text.splitWhile Char.isDigit r
  if letters ≠ [] ∧ digits ≠ [] then
    some (Reference.anchor anchoredCol ++ letters ++ Reference.anchor anchoredRow ++ digits, r)
  else none

theorem splitAnchor_append (t : Text) :
    Reference.anchor (Reference.splitAnchor t).1 ++ (Reference.splitAnchor t).2 = t := by
  unfold Reference.splitAnchor
  split <;> simp [Reference.anchor]

theorem splitReference?_eq_some {t a b : Text} (h : splitReference? t = some (a, b)) :
    t = a ++ b ∧ a ≠ [] := by
  simp only [splitReference?, Option.ite_none_right_eq_some, Option.some.injEq, Prod.mk.injEq] at h
  obtain ⟨⟨hl, -⟩, rfl, rfl⟩ := h
  refine ⟨?_, by simp [hl]⟩
  rw [List.append_assoc, Text.splitWhile_append, List.append_assoc, splitAnchor_append,
    List.append_assoc, Text.splitWhile_append, splitAnchor_append]

/-- A stretch of text that may be a token. -/
structure Candidate where
  first : Text
  second : Option Text
  rest : Text

namespace Candidate

def read? (t : Text) : Option Candidate :=
  (splitReference? t).map fun (first, r) =>
    match r with
    | ':' :: r' =>
      match splitReference? r' with
      | some (second, rest) => ⟨first, some second, rest⟩
      | none => ⟨first, none, r⟩
    | _ => ⟨first, none, r⟩

def text (c : Candidate) : Text :=
  match c.second with
  | some s => c.first ++ ':' :: s
  | none => c.first

/-- The token that is the first reference alone, with the rest of the candidate as plain text. -/
def firstAlone (c : Candidate) (tail : Text) : List Piece :=
  match Reference.read? c.first with
  | some r => .token c.first (.cell r) :: Piece.ofText tail
  | none => Piece.ofText (c.first ++ tail)

def pieces (c : Candidate) (before : Option Char) : List Piece :=
  if opensToken before then
    match c.second with
    | none => if closesToken c.rest.head? then c.firstAlone [] else Piece.ofText c.text
    | some s =>
      if closesToken c.rest.head? then
        match Reference.read? c.first, Reference.read? s with
        | some a, some b => [.token c.text (.range a b)]
        | _, _ => Piece.ofText c.text
      else c.firstAlone (':' :: s)
  else Piece.ofText c.text

theorem read?_eq_some {t : Text} {c : Candidate} (h : read? t = some c) :
    t = c.text ++ c.rest ∧ c.text ≠ [] := by
  obtain ⟨⟨first, r⟩, hs, he⟩ := Option.map_eq_some_iff.1 h
  obtain ⟨rfl, hn⟩ := splitReference?_eq_some hs
  dsimp only at he
  split at he
  · split at he
    · rename_i hs'
      obtain ⟨rfl, -⟩ := splitReference?_eq_some hs'
      subst he
      simp [text]
    · subst he
      exact ⟨rfl, hn⟩
  · subst he
    exact ⟨rfl, hn⟩

theorem rest_length_lt {t : Text} {c : Candidate} (h : read? t = some c) :
    c.rest.length < t.length := by
  obtain ⟨rfl, hn⟩ := read?_eq_some h
  have := List.length_pos_iff.2 hn
  simp
  omega

theorem flatMap_text_firstAlone (c : Candidate) (tail : Text) :
    (c.firstAlone tail).flatMap Piece.text = c.first ++ tail := by
  unfold firstAlone
  split
  · simp [Piece.text]
  · simp

theorem flatMap_text_pieces (c : Candidate) (before : Option Char) :
    (c.pieces before).flatMap Piece.text = c.text := by
  unfold pieces
  split
  · split
    · rename_i h
      split <;> simp [flatMap_text_firstAlone, text, h]
    · rename_i s h
      split
      · split <;> simp [Piece.text]
      · simp [flatMap_text_firstAlone, text, h]
  · simp

end Candidate

end Spreadsheet.Formula
