import Spreadsheet.CellError
import Spreadsheet.Content

/-!
The values that formulas compute, and their views as a number, as a truth value and as text. Blank
cells and errors are no numbers, and a truth value is a number only where an expression or a
comparison makes it one.
-/
namespace Spreadsheet

inductive Value where
  | empty
  | number (x : Float)
  | text (s : String)
  | boolean (b : Bool)
  | error (e : CellError)
  deriving DecidableEq, Inhabited

namespace Value

def booleanText (b : Bool) : String := if b then "TRUE" else "FALSE"

def ofContent : Content → Value
  | .empty => .empty
  | .number x => .number x
  | .text s => .text s

/-- A finite number, or text that denotes one. -/
def number? : Value → Option Float
  | .number x => if x.isFinite then some x else none
  | .text s => Number.parseText? s
  | _ => none

def asText : Value → String
  | .empty => ""
  | .number x => Number.displayText x
  | .text s => s
  | .boolean b => booleanText b
  | .error e => e.text

/-- The text `TRUE` or `FALSE` in any case. -/
def readBoolean? (s : String) : Option Bool :=
  if Text.sameIgnoringCase s.toList "TRUE".toList then some true
  else if Text.sameIgnoringCase s.toList "FALSE".toList then some false
  else none

def boolean? : Value → Option Bool
  | .boolean b => some b
  | .number x => some (x != 0)
  | .empty => some false
  | .text s => (readBoolean? s).or ((Number.parseText? s).map (· != 0))
  | .error _ => none

def isError : Value → Bool
  | .error _ => true
  | _ => false

def isEmpty : Value → Bool
  | .empty => true
  | _ => false

def typeName : Value → String
  | .empty => "empty"
  | .number _ => "number"
  | .text _ => "text"
  | .boolean _ => "boolean"
  | .error _ => "error"

@[simp] theorem number?_error (e : CellError) : number? (.error e) = none := rfl

@[simp] theorem number?_empty : number? .empty = none := rfl

theorem number?_ofContent (c : Content) : (ofContent c).number? = c.number? := by cases c <;> rfl

theorem asText_ofContent (c : Content) : (ofContent c).asText = c.asText := by cases c <;> rfl

end Value

end Spreadsheet
