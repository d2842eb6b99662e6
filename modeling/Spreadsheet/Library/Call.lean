import Spreadsheet.Library.Aggregate
import Spreadsheet.Library.Choice
import Spreadsheet.Library.Lookup

/-!
Calls of library functions with their arguments as written. The count of arguments is checked
before any of them is looked at, and a number that comes out has to be finite.
-/
namespace Spreadsheet.LibraryFunction

def checkArity (f : LibraryFunction) (n : Nat) : Except FormulaError Unit :=
  if f.arity.admits n then .ok () else .error (.argumentCount f n)

section
variable (o : Options) (eval : Text → Query Value)

/-- The result of a function on the text of its one argument. -/
def ofText (f : String → Value) (a : Argument) : Query Value := do
  return f (← a.storedText eval)

def mapText (f : Text → Text) (s : String) : Value := .text (String.ofList (f s.toList))

def lengthOf (s : String) : Value := .number (Float.ofNat s.toList.length)

def result (f : LibraryFunction) (args : List Argument) : Query Value :=
  match f, args with
  | .average, args => averageOf o eval args
  | .concatenate, args => joinOf o eval args
  | .count, args => countOf o eval args
  | .max, args => extremeOf o eval Expression.greater args
  | .min, args => extremeOf o eval Expression.smaller args
  | .sum, args => sumOf o eval args
  | .choose, condition :: yes :: no => chooseOf eval condition yes no.head?
  | .length, [a] => ofText eval lengthOf a
  | .lower, [a] => ofText eval (mapText Text.lower) a
  | .trim, [a] => ofText eval (mapText Text.trim) a
  | .upper, [a] => ofText eval (mapText Text.upper) a
  | .round, a :: places => roundOf eval a places.head?
  | .lookup, needle :: table :: column :: flag => lookupOf o eval needle table column flag.head?
  | f, args => .fail (.argumentCount f args.length)

def finiteValue : Value → Except FormulaError Value
  | .number x => if x.isFinite then .ok (.number x) else .error .notFinite
  | v => .ok v

def call (f : LibraryFunction) (args : List Argument) : Query Value := do
  .ofExcept (f.checkArity args.length)
  .ofExcept (finiteValue (← f.result o eval args))

end

end Spreadsheet.LibraryFunction
