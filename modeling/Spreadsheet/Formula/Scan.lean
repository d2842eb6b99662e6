import Spreadsheet.Formula.Token
import Spreadsheet.Text.Cut

/-!
Formula text cut into pieces: the reference tokens outside string literals, and every other
character by itself. The pieces always join to the text they were cut from, so a rewriting of
tokens touches nothing else.
-/
namespace Spreadsheet.Formula

/-- The pieces of a text that follows the character `before`, inside a string literal or not. -/
def scanFrom (before : Option Char) (quoted : Bool) : Text → List Piece
  | [] => []
  | c :: r =>
    if c = '"' then .plain c :: scanFrom (some c) (!quoted) r
    else if quoted then .plain c :: scanFrom (some c) quoted r
    else
      match h : Candidate.read? (c :: r) with
      | none => .plain c :: scanFrom (some c) quoted r
      | some k =>
        have := Nat.le_of_lt_succ (Candidate.rest_length_lt h)
        k.pieces before ++ scanFrom k.text.getLast? quoted k.rest
termination_by t => t.length

def scan (t : Text) : List Piece := scanFrom none false t

def join (ps : List Piece) : Text := ps.flatMap Piece.text

theorem join_scanFrom (before : Option Char) (quoted : Bool) (t : Text) :
    join (scanFrom before quoted t) = t := by
  unfold join
  fun_induction scanFrom before quoted t with
  | case1 => rfl
  | case2 before quoted r ih => simp [Piece.text, ih]
  | case3 before c r _ ih => simp [Piece.text, ih]
  | case4 before quoted c r _ _ _ ih => simp [Piece.text, ih]
  | case5 before quoted c r _ _ k h _ ih =>
    rw [List.flatMap_append, Candidate.flatMap_text_pieces, ih, ← (Candidate.read?_eq_some h).1]

theorem join_scan (t : Text) : join (scan t) = t := join_scanFrom _ _ t

def tokens (t : Text) : List Token :=
  (scan t).filterMap fun
    | .plain _ => none
    | .token _ k => some k

/-- A token with its place in the text, in bytes. -/
structure Found where
  text : Text
  start : Nat
  stop : Nat
  token : Token

def foundFrom (offset : Nat) : List Piece → List Found
  | [] => []
  | .plain c :: ps => foundFrom (offset + c.utf8Size) ps
  | .token t k :: ps =>
    let stop := offset + Text.utf8Length t
    ⟨t, offset, stop, k⟩ :: foundFrom stop ps

/-- The tokens of a formula, in order. -/
def references (t : Text) : List Found := foundFrom 0 (scan t)

/-- The text with each token replaced as `f` says; `none` keeps it. -/
def rewrite (f : Text → Token → Option Text) (t : Text) : Text :=
  (scan t).flatMap fun
    | .plain c => [c]
    | .token s k => (f s k).getD s

theorem rewrite_none (t : Text) : rewrite (fun _ _ => none) t = t := by
  have h : (fun p : Piece => match p with
      | .plain c => [c]
      | .token s _ => (none : Option Text).getD s) = Piece.text := by
    funext p
    cases p <;> rfl
  exact (congrArg (fun g => (scan t).flatMap g) h).trans (join_scan t)

end Spreadsheet.Formula
