import Spreadsheet.Expression.Token
import Spreadsheet.Text.Case

/-!
Reading an expression from its tokens. From loosest to tightest bind: comparisons, sums, products,
powers, signs. Comparisons, sums and products group to the left, powers to the right, and a sign
binds tighter than a power. Comparisons, right operands of powers and operands of signs may be
open inside each other up to a fixed depth.
-/
namespace Spreadsheet.Expression

/-- The most levels that may be open at once. -/
def maxNesting : Nat := 256

/-- Reads from the tokens that are left. -/
abbrev Reader (α : Type) := List Token → Except ParseError (α × List Token)

namespace Token

def comparison? : Token → Option BinaryOperator
  | .comparison op => some (.comparison op)
  | _ => none

def sum? : Token → Option BinaryOperator
  | .plus => some (.arithmetic .add)
  | .minus => some (.arithmetic .subtract)
  | _ => none

def product? : Token → Option BinaryOperator
  | .star => some (.arithmetic .multiply)
  | .slash => some (.arithmetic .divide)
  | _ => none

def sign? : Token → Option UnaryOperator
  | .minus => some .negate
  | .plus => some .plus
  | _ => none

end Token

namespace Parser

/-- The token that is read next. -/
def next (ts : List Token) : Token := ts.headD .finish

/-- Step over the next token. The fault behind the last token is met here. -/
def advance (fault : Option ParseError) (ts : List Token) : Except ParseError (List Token) :=
  match ts.tail, fault with
  | [], some e => .error e
  | ts, _ => .ok ts

def expect (fault : Option ParseError) (wanted : Token) (ts : List Token) :
    Except ParseError (List Token) :=
  if next ts = wanted then advance fault ts else .error (.expected wanted (next ts))

/-- The readers for what opens a further level. -/
structure Deeper where
  comparison : Reader Expression
  power : Reader Expression
  signed : Reader Expression

section
variable (fault : Option ParseError) (bound : Nat)

/-- More operands of a chain that groups to the left, at most `bound` of them. -/
def chainFrom (operator? : Token → Option BinaryOperator) (operand : Reader Expression) :
    (bound : Nat) → Expression → Reader Expression
  | 0, left, ts => .ok (left, ts)
  | n + 1, left, ts =>
    match operator? (next ts) with
    | none => .ok (left, ts)
    | some op => do
      let ts ← advance fault ts
      let (right, ts) ← operand ts
      chainFrom operator? operand n (.binary op left right) ts

def chain (operator? : Token → Option BinaryOperator) (operand : Reader Expression) :
    Reader Expression := fun ts => do
  let (left, ts) ← operand ts
  chainFrom fault operator? operand bound left ts

/-- The arguments after the first, at most `bound` of them. -/
def moreArguments (argument : Reader Expression) : (bound : Nat) → Reader (List Expression)
  | 0, ts => .ok ([], ts)
  | n + 1, ts =>
    if next ts = .comma then do
      let ts ← advance fault ts
      let (arg, ts) ← argument ts
      let (args, ts) ← moreArguments argument n ts
      return (arg :: args, ts)
    else .ok ([], ts)

def arguments (argument : Reader Expression) : Reader (List Expression) := fun ts =>
  if next ts = .rightParen then .ok ([], ts)
  else do
    let (arg, ts) ← argument ts
    let (args, ts) ← moreArguments fault argument bound ts
    return (arg :: args, ts)

/-- A call whose name has been read. -/
def call (deeper : Deeper) (name : Text) : Reader Expression := fun ts =>
  match Helper.ofName? name with
  | none => .error (.unknownIdentifier name)
  | some function => do
    let ts ← expect fault .leftParen ts
    let (args, ts) ← arguments fault bound deeper.comparison ts
    let ts ← expect fault .rightParen ts
    if function.arity.admits args.length then return (.call function args, ts)
    else throw (.argumentCount function args.length)

/-- A name that is not called. -/
def named (name : Text) : Except ParseError Expression :=
  if Text.sameIgnoringCase name ['T', 'R', 'U', 'E'] then .ok (.boolean true)
  else if Text.sameIgnoringCase name ['F', 'A', 'L', 'S', 'E'] then .ok (.boolean false)
  else
    match constant? name with
    | some x => .ok (.number x)
    | none => .error (.unknownIdentifier name)

def primary (deeper : Deeper) : Reader Expression := fun ts =>
  match next ts with
  | .number x => do return (.number x, ← advance fault ts)
  | .leftParen => do
    let ts ← advance fault ts
    let (e, ts) ← deeper.comparison ts
    return (e, ← expect fault .rightParen ts)
  | .identifier name => do
    let ts ← advance fault ts
    if next ts = .leftParen then call fault bound deeper name ts
    else return (← named name, ts)
  | token => .error (.unexpected token)

def signed (deeper : Deeper) : Reader Expression := fun ts =>
  match (next ts).sign? with
  | none => primary fault bound deeper ts
  | some op => do
    let ts ← advance fault ts
    let (e, ts) ← deeper.signed ts
    return (.unary op e, ts)

def power (deeper : Deeper) : Reader Expression := fun ts => do
  let (left, ts) ← signed fault bound deeper ts
  if next ts = .caret then
    let ts ← advance fault ts
    let (right, ts) ← deeper.power ts
    return (.binary (.arithmetic .power) left right, ts)
  else return (left, ts)

def product (deeper : Deeper) : Reader Expression :=
  chain fault bound Token.product? (power fault bound deeper)

def sum (deeper : Deeper) : Reader Expression :=
  chain fault bound Token.sum? (product fault bound deeper)

def comparison (deeper : Deeper) : Reader Expression :=
  chain fault bound Token.comparison? (sum fault bound deeper)

/-- The readers with `levels` levels still to be opened. -/
def deeper : (levels : Nat) → Deeper
  | 0 =>
    let refuse : Reader Expression := fun _ => .error .nestedTooDeeply
    ⟨refuse, refuse, refuse⟩
  | n + 1 =>
    let inner := deeper n
    ⟨comparison fault bound inner, power fault bound inner, signed fault bound inner⟩

end

end Parser

open Spreadsheet.Expression.Parser

namespace Tokens

/-- The expression that all the tokens form. Each operator and each comma uses up a token, so their
number bounds every chain. -/
def parse (t : Tokens) : Except ParseError Expression := do
  let start ← match t.tokens, t.fault with
    | [], some e => .error e
    | ts, _ => .ok ts
  let (e, ts) ← (deeper t.fault t.tokens.length maxNesting).comparison start
  if next ts = .finish then return e else throw (.trailing (next ts))

end Tokens

def parse (t : Text) : Except ParseError Expression := (Tokens.ofText t).parse

end Spreadsheet.Expression
