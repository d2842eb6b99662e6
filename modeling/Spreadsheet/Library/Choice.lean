import Spreadsheet.Formula.Argument
import Spreadsheet.Text.Nesting

/-!
The choice between two values by a condition. A condition with a comparison at top level compares
its two sides, as numbers if both count as such and else by their text; any other condition is
itself a truth value. An error on a side is the result.
-/
namespace Spreadsheet

open Expression (Comparison)

namespace Condition

/-- The comparisons of a condition, each before any other that is a part of it. -/
def operators : List (Text × Comparison) :=
  [(['>', '='], .greaterEqual), (['<', '='], .lessEqual), (['<', '>'], .notEqual),
    (['!', '='], .notEqual), (['='], .equal), (['>'], .greaterThan), (['<'], .lessThan)]

/-- The sides and the operator of a comparison at top level. -/
def split? (t : Text) : Option (Text × Comparison × Text) := do
  let (offset, sign) ← Text.findTopLevel? t (operators.map Prod.fst)
  let op ← operators.lookup sign
  let (left, r) := Text.splitAtByte offset t
  return (left, op, r.drop sign.length)

/-- A value as a number where it is compared. -/
def comparable? : Value → Option Float
  | .empty => some 0
  | .boolean b => some (if b then 1 else 0)
  | .number x => some x
  | .text s => Number.parseText? s
  | .error _ => none

def compareNumbers (x y : Float) : Option Ordering :=
  if x < y then some .lt else if x == y then some .eq else if y < x then some .gt else none

def compareValues (a b : Value) : Option Ordering :=
  match comparable? a, comparable? b with
  | some x, some y => compareNumbers x y
  | _, _ => some (compare a.asText b.asText)

def holds : Comparison → Option Ordering → Bool
  | .equal, r => r == some .eq
  | .notEqual, r => r != some .eq
  | .lessThan, r => r == some .lt
  | .lessEqual, r => r == some .lt || r == some .eq
  | .greaterThan, r => r == some .gt
  | .greaterEqual, r => r == some .gt || r == some .eq

section
variable (eval : Text → Query Value)

/-- Whether the condition holds, or the error it meets. -/
def test (t : Text) : Query (Except CellError Bool) :=
  match split? t with
  | none => do
    match ← (Argument.read t).value eval with
    | .error e => return .error e
    | v =>
      match v.boolean? with
      | some b => return .ok b
      | none => .fail (.booleanExpected t)
  | some (left, op, right) => do
    let a ← (Argument.read left).value eval
    let b ← (Argument.read right).value eval
    match a, b with
    | .error e, _ => return .error e
    | _, .error e => return .error e
    | a, b => return .ok (holds op (compareValues a b))

end

end Condition

namespace LibraryFunction

variable (eval : Text → Query Value)

def chooseOf (condition yes : Argument) (no : Option Argument) : Query Value := do
  match ← Condition.test eval condition.text with
  | .error e => return .error e
  | .ok true => yes.value eval
  | .ok false =>
    match no with
    | some a => a.value eval
    | none => return .boolean false

end LibraryFunction

end Spreadsheet
