import Spreadsheet.Arity

/-!
The functions of the library, their names and how many arguments each takes. Names are read in any
case.
-/
namespace Spreadsheet

inductive LibraryFunction where
  | average
  | concatenate
  | count
  | choose
  | length
  | lower
  | max
  | min
  | round
  | sum
  | trim
  | upper
  | lookup
  deriving DecidableEq, Repr

namespace LibraryFunction

/-- In the order of their names. -/
def all : List LibraryFunction :=
  [.average, .concatenate, .count, .choose, .length, .lower, .max, .min, .round, .sum, .trim,
    .upper, .lookup]

def name : LibraryFunction → String
  | .average => "AVERAGE"
  | .concatenate => "CONCATENATE"
  | .count => "COUNT"
  | .choose => "IF"
  | .length => "LEN"
  | .lower => "LOWER"
  | .max => "MAX"
  | .min => "MIN"
  | .round => "ROUND"
  | .sum => "SUM"
  | .trim => "TRIM"
  | .upper => "UPPER"
  | .lookup => "VLOOKUP"

def arity : LibraryFunction → Arity
  | .average | .concatenate | .count | .max | .min | .sum => .atLeast 1
  | .choose => .between 2 3
  | .length | .lower | .trim | .upper => .exactly 1
  | .round => .between 1 2
  | .lookup => .between 3 4

def ofName? (name : Text) : Option LibraryFunction :=
  let name := name.map Char.toUpper
  all.find? fun f => f.name.toList == name

def isKnown (name : Text) : Bool := (ofName? name).isSome

theorem mem_all (f : LibraryFunction) : f ∈ all := by cases f <;> decide

end LibraryFunction

end Spreadsheet
