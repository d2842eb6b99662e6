import Spreadsheet.Expression.Basic
import Spreadsheet.Number.Reading

/-!
The tokens of an expression. Blanks separate tokens and are dropped. A text that is no token is a
fault, which stands at the end of the tokens before it: it counts only once those are used up.
-/
namespace Spreadsheet.Expression

inductive Token where
  | number (x : Float)
  | identifier (name : Text)
  | plus
  | minus
  | star
  | slash
  | caret
  | comparison (op : Comparison)
  | comma
  | leftParen
  | rightParen
  | finish
  deriving DecidableEq

def Comparison.name : Comparison → String
  | .equal => "Equal"
  | .notEqual => "NotEqual"
  | .lessThan => "LessThan"
  | .lessEqual => "LessEqual"
  | .greaterThan => "GreaterThan"
  | .greaterEqual => "GreaterEqual"

/-- The token as messages name it. -/
def Token.text : Token → String
  | .number x => "Number(" ++ String.ofList (Number.numeral.write x) ++ ")"
  | .identifier name => "Identifier(\"" ++ String.ofList name ++ "\")"
  | .plus => "Plus"
  | .minus => "Minus"
  | .star => "Star"
  | .slash => "Slash"
  | .caret => "Caret"
  | .comparison op => op.name
  | .comma => "Comma"
  | .leftParen => "LeftParen"
  | .rightParen => "RightParen"
  | .finish => "Eof"

inductive ParseError where
  /-- An exclamation mark without an equals sign. -/
  | loneMark
  | character (c : Char)
  | number (text : Text)
  | nestedTooDeeply
  | trailing (token : Token)
  | expected (wanted found : Token)
  | unexpected (token : Token)
  | unknownIdentifier (name : Text)
  | argumentCount (function : Helper) (actual : Nat)
  deriving DecidableEq

namespace Token

/-- At most one leading character in `p`. -/
def splitOne (p : Char → Bool) : Text → Text × Text
  | [] => ([], [])
  | c :: r => if p c then ([c], r) else ([], c :: r)

/-- A point with the digits after it. -/
def splitPoint : Text → Text × Text
  | [] => ([], [])
  | c :: r =>
    if c = '.' then
      let (digits, r) := Text.splitWhile Char.isDigit r
      (c :: digits, r)
    else ([], c :: r)

/-- An exponent mark with the sign and the digits after it, as far as they are there. -/
def splitExponent : Text → Text × Text
  | [] => ([], [])
  | c :: r =>
    if c = 'e' ∨ c = 'E' then
      let (sign, r) := splitOne (fun c => c == '+' || c == '-') r
      let (digits, r) := Text.splitWhile Char.isDigit r
      (c :: sign ++ digits, r)
    else ([], c :: r)

/-- Digits, a fraction and an exponent, as far as they are there. -/
def splitNumber (t : Text) : Text × Text :=
  let (whole, r) := Text.splitWhile Char.isDigit t
  let (fraction, r) := splitPoint r
  let (exponent, r) := splitExponent r
  (whole ++ fraction ++ exponent, r)

def readNumber (t : Text) : Except ParseError (Token × Text) :=
  let (text, r) := splitNumber t
  match Number.readFloat? text with
  | some x => .ok (.number x, r)
  | none => .error (.number text)

def startsNumber : Text → Bool
  | '.' :: c :: _ => c.isDigit
  | c :: _ => c.isDigit
  | [] => false

def isNameStart (c : Char) : Bool := c.isAlpha || c == '_'

def isNamePart (c : Char) : Bool := c.isAlphanum || c == '_'

/-- The operator or mark that a text starts with, and how many characters it has. -/
def symbol? : Text → Option (Token × Nat)
  | '+' :: _ => some (.plus, 1)
  | '-' :: _ => some (.minus, 1)
  | '*' :: _ => some (.star, 1)
  | '/' :: _ => some (.slash, 1)
  | '^' :: _ => some (.caret, 1)
  | ',' :: _ => some (.comma, 1)
  | '(' :: _ => some (.leftParen, 1)
  | ')' :: _ => some (.rightParen, 1)
  | '<' :: '=' :: _ => some (.comparison .lessEqual, 2)
  | '<' :: '>' :: _ => some (.comparison .notEqual, 2)
  | '<' :: _ => some (.comparison .lessThan, 1)
  | '>' :: '=' :: _ => some (.comparison .greaterEqual, 2)
  | '>' :: _ => some (.comparison .greaterThan, 1)
  | '=' :: '=' :: _ => some (.comparison .equal, 2)
  | '=' :: _ => some (.comparison .equal, 1)
  | '!' :: '=' :: _ => some (.comparison .notEqual, 2)
  | _ => none

/-- The first token of a text that starts with a character other than a blank, and the rest. -/
def read (c : Char) (t : Text) : Except ParseError (Token × Text) :=
  match symbol? (c :: t) with
  | some (k, n) => .ok (k, t.drop (n - 1))
  | none =>
    if c = '!' then .error .loneMark
    else if startsNumber (c :: t) then readNumber (c :: t)
    else if isNameStart c then
      let (name, r) := Text.splitWhile isNamePart t
      .ok (.identifier (c :: name), r)
    else .error (.character c)

theorem splitOne_append (p : Char → Bool) (t : Text) :
    (splitOne p t).1 ++ (splitOne p t).2 = t := by
  unfold splitOne
  split
  · rfl
  · split <;> rfl

theorem splitPoint_append (t : Text) : (splitPoint t).1 ++ (splitPoint t).2 = t := by
  unfold splitPoint
  split
  · rfl
  · split
    · simp [Text.splitWhile_append]
    · rfl

theorem splitExponent_append (t : Text) : (splitExponent t).1 ++ (splitExponent t).2 = t := by
  unfold splitExponent
  split
  · rfl
  · split
    · simp [Text.splitWhile_append, splitOne_append]
    · rfl

theorem splitNumber_append (t : Text) : (splitNumber t).1 ++ (splitNumber t).2 = t := by
  simp [splitNumber, splitExponent_append, splitPoint_append, Text.splitWhile_append]

theorem splitNumber_ne_nil {t : Text} (h : startsNumber t = true) : (splitNumber t).1 ≠ [] := by
  cases t with
  | nil => cases h
  | cons c r =>
    by_cases hd : c.isDigit = true
    · simp [splitNumber, Text.splitWhile, List.takeWhile_cons_of_pos hd]
    · have hc : c = '.' := by
        unfold startsNumber at h
        split at h <;> simp_all
      subst hc
      simp [splitNumber, Text.splitWhile, splitPoint]

/-- Reading a token uses up its first character. -/
theorem length_le_of_read {c : Char} {t r : Text} {k : Token} (h : read c t = .ok (k, r)) :
    r.length ≤ t.length := by
  unfold read at h
  split at h
  · cases h
    simp
  · split at h
    · cases h
    · split at h
      · rename_i hs
        simp only [readNumber] at h
        split at h
        · cases h
          have hp := List.length_pos_iff.2 (splitNumber_ne_nil hs)
          have ha := congrArg List.length (splitNumber_append (c :: t))
          simp only [List.length_append, List.length_cons] at ha
          omega
        · cases h
      · split at h
        · cases h
          exact (List.dropWhile_suffix _).length_le
        · cases h

end Token

/-- The tokens of a text up to its first fault. -/
structure Tokens where
  tokens : List Token
  fault : Option ParseError

def Tokens.ofText : Text → Tokens
  | [] => ⟨[], none⟩
  | c :: r =>
    if Text.isBlank c then ofText r
    else
      match h : Token.read c r with
      | .error e => ⟨[], some e⟩
      | .ok (k, r') =>
        have := Token.length_le_of_read h
        let rest := ofText r'
        ⟨k :: rest.tokens, rest.fault⟩
termination_by t => t.length

end Spreadsheet.Expression
