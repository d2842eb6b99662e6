import Spreadsheet.Expression.Parser
import Spreadsheet.Number.Whole
import Spreadsheet.Value

/-!
The value of an expression, a number or a truth value. Two truth values are compared as such; in
every other place a truth value counts as one or zero. Infinities and other non-numbers may arise
inside an expression.
-/
namespace Spreadsheet.Expression

/-- A number or a truth value. -/
inductive Scalar where
  | number (x : Float)
  | boolean (b : Bool)
  deriving DecidableEq

namespace Scalar

def asNumber : Scalar → Float
  | .number x => x
  | .boolean b => if b then 1 else 0

def isTruthy : Scalar → Bool
  | .number x => x != 0 && !x.isNaN
  | .boolean b => b

def isFinite : Scalar → Bool
  | .number x => x.isFinite
  | .boolean _ => true

def toValue : Scalar → Value
  | .number x => .number x
  | .boolean b => .boolean b

def text (s : Scalar) : String := s.toValue.asText

end Scalar

def UnaryOperator.apply : UnaryOperator → Float → Float
  | .negate, x => -x
  | .plus, x => x

def Arithmetic.apply : Arithmetic → Float → Float → Float
  | .add, x, y => x + y
  | .subtract, x, y => x - y
  | .multiply, x, y => x * y
  | .divide, x, y => x / y
  | .power, x, y => x.pow y

namespace Comparison

def ofNumbers : Comparison → Float → Float → Bool
  | .equal, x, y => x == y
  | .notEqual, x, y => x != y
  | .lessThan, x, y => x < y
  | .lessEqual, x, y => x ≤ y
  | .greaterThan, x, y => y < x
  | .greaterEqual, x, y => y ≤ x

def ofBooleans : Comparison → Bool → Bool → Bool
  | .equal, a, b => a == b
  | .notEqual, a, b => a != b
  | .lessThan, a, b => !a && b
  | .lessEqual, a, b => !a || b
  | .greaterThan, a, b => a && !b
  | .greaterEqual, a, b => a || !b

def apply (op : Comparison) : Scalar → Scalar → Bool
  | .boolean a, .boolean b => op.ofBooleans a b
  | a, b => op.ofNumbers a.asNumber b.asNumber

end Comparison

def BinaryOperator.apply : BinaryOperator → Scalar → Scalar → Scalar
  | .arithmetic op, a, b => .number (op.apply a.asNumber b.asNumber)
  | .comparison op, a, b => .boolean (op.apply a b)

/-- The greater of two numbers, or the one that is a number. Of equal numbers it is the second, which
tells a zero from a negative zero. -/
def greater (x y : Float) : Float := if y.isNaN || y < x then x else y

/-- The smaller of two numbers, or the one that is a number. Of equal numbers it is the second. -/
def smaller (x y : Float) : Float := if y.isNaN || x < y then x else y

def notANumber : Float := 0 / 0

def infinity : Float := 1 / 0

namespace Helper

def apply (h : Helper) (args : List Float) : Float :=
  let first := args.headD notANumber
  match h with
  | .abs => first.abs
  | .ceil => Number.ceil first
  | .floor => Number.floor first
  | .round => Number.floor (first + 0.5)
  | .max => args.foldl greater (-infinity)
  | .min => args.foldl smaller infinity
  | .pow => first.pow (args[1]?.getD notANumber)
  | .sqrt => first.sqrt
  | .sin => first.sin
  | .cos => first.cos
  | .tan => first.tan

end Helper

mutual

def value : Expression → Scalar
  | .number x => .number x
  | .boolean b => .boolean b
  | .unary op e => .number (op.apply (value e).asNumber)
  | .binary op a b => op.apply (value a) (value b)
  | .call h args => .number (h.apply (values args))

def values : List Expression → List Float
  | [] => []
  | e :: es => (value e).asNumber :: values es

end

/-- Why a text has no value as an expression. -/
inductive Failure where
  | parse (error : ParseError)
  | notFinite
  deriving DecidableEq

/-- The value of a text as an expression; a number has to be finite in the end. -/
def evaluate (t : Text) : Except Failure Scalar :=
  match parse t with
  | .error e => .error (.parse e)
  | .ok e => if e.value.isFinite then .ok e.value else .error .notFinite

end Spreadsheet.Expression
