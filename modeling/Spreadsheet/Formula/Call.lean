import Spreadsheet.Text.Nesting
import Spreadsheet.Text.Word

/-!
Function calls in formula text. A text may be one call as a whole; inside a longer expression the
outermost calls of known functions, written in capitals, are segments between plain characters. A
segmentation stops at a call whose parenthesis never closes.
-/
namespace Spreadsheet.Formula

def isCallName (name : Text) : Bool :=
  match name with
  | [] => false
  | c :: r => c.isAlpha && r.all fun c => c.isAlphanum || c == '_'

/-- The name and the argument text of a call that spans the whole text. -/
def wholeCall? (t : Text) : Option (Text × Text) := do
  let (name, r) ← Text.cutAt? '(' t
  if isCallName name then
    match Text.splitCall? r with
    | some (args, []) => some (name, args)
    | _ => none
  else none

inductive Segment where
  | plain (c : Char)
  | call (name args : Text)
  | unclosed (name : Text)
  deriving DecidableEq

/-- A name in capitals before an opening parenthesis, and the text after the parenthesis. -/
def splitName? (t : Text) : Option (Text × Text) :=
  match t with
  | [] => none
  | c :: _ =>
    if c.isUpper then
      match Text.splitWhile (fun c => c.isUpper || c.isDigit) t with
      | (name, '(' :: r) => some (name, r)
      | _ => none
    else none

theorem splitName?_append {t a b : Text} (h : splitName? t = some (a, b)) : t = a ++ '(' :: b := by
  unfold splitName? at h
  split at h
  · cases h
  · rename_i c r
    split at h
    · have hs := Text.splitWhile_append (fun c => c.isUpper || c.isDigit) (c :: r)
      split at h
      · rename_i he
        rw [he] at hs
        cases h
        exact hs.symm
      · cases h
    · cases h

theorem length_lt_of_splitName? {t name inner args rest : Text}
    (h : splitName? t = some (name, inner)) (h' : Text.splitCall? inner = some (args, rest)) :
    rest.length < t.length := by
  rw [splitName?_append h, Text.splitCall?_append h']
  simp
  omega

/-- The segments of a text that follows the character `before`, inside a string literal or not.
A name counts from a word boundary on, and calls inside an argument text stay there. -/
def segmentsFrom (known : Text → Bool) (before : Option Char) (quoted : Bool) :
    Text → List Segment
  | [] => []
  | c :: r =>
    if c = '"' then .plain c :: segmentsFrom known (some c) (!quoted) r
    else if quoted || before.any Text.isWord then .plain c :: segmentsFrom known (some c) quoted r
    else
      match h : splitName? (c :: r) with
      | none => .plain c :: segmentsFrom known (some c) quoted r
      | some (name, inner) =>
        if known name then
          match h' : Text.splitCall? inner with
          | none => [.unclosed name]
          | some (args, rest) =>
            have := Nat.le_of_lt_succ (length_lt_of_splitName? h h')
            .call name args :: segmentsFrom known (some ')') quoted rest
        else .plain c :: segmentsFrom known (some c) quoted r
termination_by t => t.length

def segments (known : Text → Bool) (t : Text) : List Segment := segmentsFrom known none false t

namespace Segment

def text : Segment → Text
  | .plain c => [c]
  | .call name args => name ++ '(' :: args ++ [')']
  | .unclosed name => name ++ ['(']

end Segment

end Spreadsheet.Formula
