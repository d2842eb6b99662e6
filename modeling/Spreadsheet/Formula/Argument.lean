import Spreadsheet.Options
import Spreadsheet.Query
import Spreadsheet.Text.Quoted

/-!
The arguments of a library call, told apart by how they are written, and what each stands for: one
value, one text, or all the cells of a range. An argument of no other kind is a formula of its own,
evaluated by `eval`. If that fails the argument is its own text, unless it failed with an error
read from a cell.
-/
namespace Spreadsheet

inductive ArgumentKind where
  | empty
  | range (r : Range)
  | reference (r : Reference)
  | literal (t : Text)
  | number (x : Float)
  | formula

/-- An argument with its trimmed text. -/
structure Argument where
  text : Text
  kind : ArgumentKind

namespace Argument

def kindOf (t : Text) : ArgumentKind :=
  if t = [] then .empty
  else
    match Range.read? t with
    | some r => .range r
    | none =>
      match Reference.read? t with
      | some r => .reference r
      | none =>
        match Text.literal? t with
        | some s => .literal s
        | none =>
          match Number.parse? t with
          | some x => .number x
          | none => .formula

def read (t : Text) : Argument := ⟨Text.trim t, kindOf (Text.trim t)⟩

def isRange (a : Argument) : Bool :=
  match a.kind with
  | .range _ => true
  | _ => false

end Argument

/-- Refuse a range with more cells than are visited. -/
def Options.checkRange (o : Options) (r : Range) : Except FormulaError Unit :=
  if o.maxRangeCells < r.cellCount then .error (.rangeTooLarge r o.maxRangeCells) else .ok ()

namespace Argument

section
variable (o : Options) (eval : Text → Query Value) (a : Argument)

/-- What a nested formula stands for, from its outcome. -/
def settle (text : Text) : Except FormulaError Value → Value
  | .ok v => v
  | .error (.propagated e) => .error e
  | .error _ => .text (String.ofList text)

def value : Query Value :=
  match a.kind with
  | .empty => .done .empty
  | .range r => .fail (.rangeAsSingle r)
  | .reference r => .computed r.cell .done
  | .literal t => .done (.text (String.ofList t))
  | .number x => .done (.number x)
  | .formula => do return settle a.text (← (eval a.text).attempt)

/-- The text of a value that is no error. -/
def textOf : Value → Query String
  | .error e => .fail (.propagated e)
  | v => .done v.asText

/-- The argument as text. A cell gives its stored content, a formula for instance. -/
def storedText : Query String :=
  match a.kind with
  | .empty => .done ""
  | .range r => .fail (.rangeAsSingle r)
  | .reference r => .stored r.cell fun c => .done c.asText
  | .literal t => .done (String.ofList t)
  | .number _ => .done (String.ofList a.text)
  | .formula => a.value eval >>= textOf

variable {β : Type}

/-- Go through the computed values that the argument covers. -/
def foldValues (f : β → Value → β) (b : β) : Query β :=
  match a.kind with
  | .range r => do
    .ofExcept (o.checkRange r)
    .foldComputed f b r.cells
  | _ => do return f b (← a.value eval)

/-- Go through the stored contents that the argument covers. Anything but a range or a reference is
the content with its text. -/
def foldContents (f : β → Content → β) (b : β) : Query β :=
  match a.kind with
  | .range r => do
    .ofExcept (o.checkRange r)
    .foldStored f b r.cells
  | .reference r => .stored r.cell fun c => .done (f b c)
  | .empty => .done (f b .empty)
  | _ => do return f b (.text (← a.storedText eval))

/-- A number; nothing counts as zero. -/
def numberValue : Query Float := do
  match ← a.value eval with
  | .error e => .fail (.propagated e)
  | .empty => .done 0
  | v =>
    match v.number? with
    | some x => .done x
    | none => .fail (.numberExpected a.text)

end

end Argument

end Spreadsheet
