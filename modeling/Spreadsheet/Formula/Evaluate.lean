import Spreadsheet.Formula.Call
import Spreadsheet.Formula.Scan
import Spreadsheet.Library.Call

/-!
The value of formula text. A text that is one call of a library function is that call; a reference
is its cell's value and a literal its text. Any other text is an expression: its outermost calls
give way to their values, then its references to the values of their cells, and what is left is
evaluated as arithmetic.
-/
namespace Spreadsheet.Formula

/-- A number as a part of an expression. -/
def numberLiteral (x : Float) : Text :=
  if x < 0 then '(' :: Number.plain.write x ++ [')'] else Number.plain.write x

def booleanLiteral (b : Bool) : Text := (Value.booleanText b).toList

/-- The value of a referenced cell as a part of an expression. What is no number counts as zero. -/
def cellLiteral : Value → Except FormulaError Text
  | .error e => .error (.propagated e)
  | .boolean b => .ok (booleanLiteral b)
  | v => .ok (numberLiteral (v.number?.getD 0))

/-- The value of a call as a part of an expression. -/
def callLiteral : Value → Except FormulaError Text
  | .error e => .error (.propagated e)
  | .boolean b => .ok (booleanLiteral b)
  | v =>
    match v.number? with
    | some x => .ok (numberLiteral x)
    | none => .error (.noLiteral v)

/-- A piece of text as it stands in the arithmetic that is left. -/
def Piece.substitute : Piece → Query Text
  | .plain c => .done [c]
  | .token _ (.cell r) => .computed r.cell fun v => .ofExcept (cellLiteral v)
  | .token t (.range _ _) => .fail (.rangeInExpression t)

def substitutePieces : List Piece → Query Text
  | [] => .done []
  | p :: ps => do
    let t ← p.substitute
    return t ++ (← substitutePieces ps)

def substituteReferences (t : Text) : Query Text := substitutePieces (scan t)

section
variable (o : Options) (eval : Text → Query Value)

/-- A call by name with the text between its parentheses. -/
def callNamed (name args : Text) : Query Value :=
  match LibraryFunction.ofName? name with
  | none => .fail (.unknownFunction name)
  | some f => f.call o eval ((Text.splitArguments args).map Argument.read)

def Segment.expand : Segment → Query Text
  | .plain c => .done [c]
  | .call name args => do .ofExcept (callLiteral (← callNamed o eval name args))
  | .unclosed name => .fail (.unclosedCall name)

def expandSegments : List Segment → Query Text
  | [] => .done []
  | s :: ss => do
    let t ← s.expand o eval
    return t ++ (← expandSegments ss)

/-- The text with its outermost calls replaced by their values. -/
def expandCalls (t : Text) : Query Text :=
  expandSegments o eval (segments LibraryFunction.isKnown t)

def ofScalar (r : Except Expression.Failure Expression.Scalar) : Except FormulaError Value :=
  match r with
  | .ok s => .ok s.toValue
  | .error e => .error (.ofFailure e)

def expressionValue (t : Text) : Query Value := do
  let t ← expandCalls o eval t
  let t ← substituteReferences t
  .ofExcept (ofScalar (Expression.evaluate t))

/-- The value of a text that is no call as a whole. -/
def plainValue (t : Text) : Query Value :=
  match Reference.read? t with
  | some r => .computed r.cell .done
  | none =>
    match Text.literal? t with
    | some s => .done (.text (String.ofList s))
    | none => if (Range.read? t).isSome then .fail (.rangeAsValue t) else expressionValue o eval t

/-- The value of a text, where `eval` gives the values of texts inside it. -/
def valueWith (t : Text) : Query Value :=
  let t := Text.trim t
  if t = [] then .fail .emptyFormula
  else
    match wholeCall? t with
    | some (name, args) =>
      if LibraryFunction.isKnown name then callNamed o eval name args else plainValue o eval t
    | none => plainValue o eval t

end

/-- The value of formula text without its equals sign. A text inside a formula is shorter than the
formula, so the other branch of the test is never taken. -/
def value (o : Options) (t : Text) : Query Value :=
  valueWith o (fun s => if s.length < t.length then value o s else .fail .emptyFormula) t
termination_by t.length

/-- The text behind the equals sign. -/
def body (t : Text) : Text :=
  match Text.trim t with
  | '=' :: r => r
  | r => r

end Spreadsheet.Formula
