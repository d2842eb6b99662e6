import Spreadsheet.Formula.Argument
import Spreadsheet.Number.Rounding

/-!
Functions over all the cells of their arguments. A sum and an average count what is no number as
zero, the extremes leave it out, and a count looks at stored contents.
-/
namespace Spreadsheet.LibraryFunction

section
variable (o : Options) (eval : Text → Query Value)

def foldValues {β : Type} (f : β → Value → β) (b : β) (args : List Argument) : Query β :=
  args.foldlM (fun b a => a.foldValues o eval f b) b

def foldContents {β : Type} (f : β → Content → β) (b : β) (args : List Argument) : Query β :=
  args.foldlM (fun b a => a.foldContents o eval f b) b

def addend (v : Value) : Float := v.number?.getD 0

def sumOf (args : List Argument) : Query Value := do
  return .number (← foldValues o eval (fun x v => x + addend v) 0 args)

/-- A running sum and how many values it has. -/
structure Tally where
  sum : Float
  count : Nat

def Tally.add (t : Tally) (v : Value) : Tally := ⟨t.sum + addend v, t.count + 1⟩

def averageOf (args : List Argument) : Query Value := do
  let t ← foldValues o eval Tally.add ⟨0, 0⟩ args
  if t.count = 0 then .fail .averageOfNothing else return .number (t.sum / Float.ofNat t.count)

/-- The best number so far against one more value. -/
def prefer (pick : Float → Float → Float) (best : Option Float) (v : Value) : Option Float :=
  match v.number?, best with
  | some x, some y => some (pick y x)
  | some x, none => some x
  | none, best => best

def extremeOf (pick : Float → Float → Float) (args : List Argument) : Query Value := do
  return .number ((← foldValues o eval (prefer pick) none args).getD 0)

def countOf (args : List Argument) : Query Value := do
  let n ← foldContents o eval (fun n c => if c.isBlank then n else n + 1) 0 args
  return .number (Float.ofNat n)

def joinOf (args : List Argument) : Query Value := do
  return .text (← foldContents o eval (fun s c => s ++ c.asText) "" args)

end

section
variable (eval : Text → Query Value)

/-- The bounds of a count of places. -/
def minPlaces : Int := -2147483648

def maxPlaces : Int := 2147483647

def roundOf (a : Argument) (places : Option Argument) : Query Value := do
  let x ← a.numberValue eval
  let n ← match places with
    | some p => p.numberValue eval
    | none => .done 0
  return .number (Number.roundHalfAway x (Number.truncClamped minPlaces maxPlaces n))

end

end Spreadsheet.LibraryFunction
