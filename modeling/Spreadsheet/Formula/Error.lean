import Spreadsheet.Expression.Value
import Spreadsheet.Library.Basic
import Spreadsheet.Range

/-!
Why a formula fails, and the wording of each failure. A cell shows an error read from another cell
as it is, and every other failure as the same general error.
-/
namespace Spreadsheet

inductive FormulaError where
  | emptyFormula
  | unclosedCall (name : Text)
  | parse (error : Expression.ParseError)
  | averageOfNothing
  | rangeTooLarge (range : Range) (limit : Nat)
  | numberExpected (arg : Text)
  | booleanExpected (condition : Text)
  | noLiteral (value : Value)
  | columnExpected (arg : Text)
  | columnOutside (column : Float) (width : Nat)
  | unknownFunction (name : Text)
  | argumentCount (function : LibraryFunction) (actual : Nat)
  | rangeAsValue (range : Text)
  | rangeInExpression (range : Text)
  | rangeAsSingle (range : Range)
  | tableExpected (arg : Text)
  | notFinite
  | propagated (e : CellError)

namespace FormulaError

inductive Kind where
  | parse
  | evaluation
  | argument
  | unknownIdentifier
  | argumentCount
  | invalidReference
  | notFinite
  | propagated
  deriving DecidableEq, Repr

def ofFailure : Expression.Failure → FormulaError
  | .parse e => .parse e
  | .notFinite => .notFinite

def kind : FormulaError → Kind
  | .emptyFormula | .unclosedCall _ => .parse
  | .parse (.unknownIdentifier _) => .unknownIdentifier
  | .parse (.argumentCount _ _) => .argumentCount
  | .parse _ => .parse
  | .averageOfNothing => .evaluation
  | .rangeTooLarge _ _ | .numberExpected _ | .booleanExpected _ | .noLiteral _ | .columnExpected _
  | .columnOutside _ _ => .argument
  | .unknownFunction _ => .unknownIdentifier
  | .argumentCount _ _ => .argumentCount
  | .rangeAsValue _ | .rangeInExpression _ | .rangeAsSingle _ | .tableExpected _ =>
    .invalidReference
  | .notFinite => .notFinite
  | .propagated _ => .propagated

/-- What the message of a kind starts with. -/
def Kind.opening : Kind → String
  | .parse => "Parse error: "
  | .evaluation => "Evaluation error: "
  | .argument => "Invalid argument: "
  | .unknownIdentifier => "Unknown identifier: "
  | .argumentCount => "Wrong number of arguments for "
  | .invalidReference => "Invalid reference: "
  | .notFinite => "Result is not a finite number"
  | .propagated => "Referenced cell shows "

def countText (name : String) (arity : Arity) (actual : Nat) : String :=
  name ++ ": expected " ++ arity.text ++ ", got " ++ toString actual

def parseText : Expression.ParseError → String
  | .loneMark => "Unexpected '!'"
  | .character c => "Unexpected character '" ++ c.toString ++ "'"
  | .number t => "Invalid number '" ++ String.ofList t ++ "'"
  | .nestedTooDeeply => "Expression is nested too deeply"
  | .trailing k => "Unexpected " ++ k.text ++ " after expression"
  | .expected wanted found => "Expected " ++ wanted.text ++ ", got " ++ found.text
  | .unexpected k => "Unexpected token: " ++ k.text
  | .unknownIdentifier name => String.ofList name
  | .argumentCount h n => countText h.name h.arity n

/-- What the message says after its opening. -/
def detail : FormulaError → String
  | .emptyFormula => "Empty formula"
  | .unclosedCall name => "Unbalanced parentheses after " ++ String.ofList name
  | .parse e => parseText e
  | .notFinite => ""
  | .averageOfNothing => "AVERAGE of no values"
  | .rangeTooLarge r limit =>
    "Range " ++ String.ofList r.text ++ " has more than " ++ toString limit ++ " cells"
  | .numberExpected arg => "Expected a number, got '" ++ String.ofList arg ++ "'"
  | .booleanExpected condition => "Condition '" ++ String.ofList condition ++ "' is not a boolean"
  | .noLiteral v => "Expected a number in an expression, got " ++ v.typeName
  | .columnExpected arg => "VLOOKUP column '" ++ String.ofList arg ++ "' is not a number"
  | .columnOutside x width =>
    "VLOOKUP column " ++ String.ofList (Number.plain.write x) ++ " outside 1..=" ++ toString width
  | .unknownFunction name => String.ofList name
  | .argumentCount f n => countText f.name f.arity n
  | .rangeAsValue t => "Range " ++ String.ofList t ++ " used as a value"
  | .rangeInExpression t => "Range " ++ String.ofList t ++ " used in an expression"
  | .rangeAsSingle r => "Range " ++ String.ofList r.text ++ " where a single value is expected"
  | .tableExpected arg => "VLOOKUP table '" ++ String.ofList arg ++ "' is not a range"
  | .propagated e => e.text

def message (e : FormulaError) : String := e.kind.opening ++ e.detail

/-- The error that the failing cell shows. -/
def shown : FormulaError → CellError
  | .propagated e => e
  | _ => .failed

@[simp] theorem shown_propagated (e : CellError) : shown (.propagated e) = e := rfl

end FormulaError

end Spreadsheet
