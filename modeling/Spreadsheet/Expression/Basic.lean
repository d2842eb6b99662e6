import Spreadsheet.Arity

/-!
Arithmetic expressions over numbers and truth values, with a fixed set of helper functions. No
expression mentions a cell.
-/
namespace Spreadsheet.Expression

inductive UnaryOperator where
  | negate
  | plus
  deriving DecidableEq, Repr

inductive Comparison where
  | equal
  | notEqual
  | lessThan
  | lessEqual
  | greaterThan
  | greaterEqual
  deriving DecidableEq, Repr

inductive Arithmetic where
  | add
  | subtract
  | multiply
  | divide
  | power
  deriving DecidableEq, Repr

inductive BinaryOperator where
  | arithmetic (op : Arithmetic)
  | comparison (op : Comparison)
  deriving DecidableEq, Repr

inductive Helper where
  | abs
  | ceil
  | floor
  | round
  | max
  | min
  | pow
  | sqrt
  | sin
  | cos
  | tan
  deriving DecidableEq, Repr

namespace Helper

def all : List Helper := [.abs, .ceil, .floor, .round, .max, .min, .pow, .sqrt, .sin, .cos, .tan]

def name : Helper → String
  | .abs => "abs"
  | .ceil => "ceil"
  | .floor => "floor"
  | .round => "round"
  | .max => "max"
  | .min => "min"
  | .pow => "pow"
  | .sqrt => "sqrt"
  | .sin => "sin"
  | .cos => "cos"
  | .tan => "tan"

def arity : Helper → Arity
  | .max | .min => .atLeast 0
  | .pow => .exactly 2
  | _ => .exactly 1

/-- The helper of a name in any case. -/
def ofName? (name : Text) : Option Helper :=
  let name := name.map Char.toLower
  all.find? fun h => h.name.toList == name

theorem mem_all (h : Helper) : h ∈ all := by cases h <;> decide

end Helper

end Spreadsheet.Expression

namespace Spreadsheet

open Expression

inductive Expression where
  | number (x : Float)
  | boolean (b : Bool)
  | unary (op : UnaryOperator) (operand : Expression)
  | binary (op : BinaryOperator) (left right : Expression)
  | call (function : Helper) (args : List Expression)

namespace Expression

/-- The ratio of a circle's circumference to its diameter. -/
def pi : Float := Float.ofBits 0x400921FB54442D18

/-- The base of the natural logarithm. -/
def euler : Float := Float.ofBits 0x4005BF0A8B145769

/-- The number that a name in any case stands for. -/
def constant? (name : Text) : Option Float :=
  let name := name.map Char.toUpper
  if name = ['P', 'I'] then some pi
  else if name = ['E'] then some euler
  else none

end Expression

end Spreadsheet
