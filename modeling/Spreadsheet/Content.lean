import Spreadsheet.Number.Reading

/-!
What a cell of the grid holds: nothing, a number, or text. Text that starts with an equals sign is
a formula, stored as it was written.
-/
namespace Spreadsheet

inductive Content where
  | empty
  | number (x : Float)
  | text (s : String)
  deriving DecidableEq, Inhabited

namespace Content

def isBlank : Content → Bool
  | .empty => true
  | .number _ => false
  | .text s => (Text.trim s.toList).isEmpty

def isFormulaText (s : String) : Bool := s.toList.head? == some '='

def formula? : Content → Option String
  | .text s => if isFormulaText s then some s else none
  | _ => none

/-- A finite number, or text that denotes one. -/
def number? : Content → Option Float
  | .number x => if x.isFinite then some x else none
  | .text s => Number.parseText? s
  | .empty => none

def asText : Content → String
  | .empty => ""
  | .number x => Number.displayText x
  | .text s => s

theorem formula?_eq_some_iff {v : Content} {s : String} :
    v.formula? = some s ↔ v = .text s ∧ isFormulaText s = true := by
  cases v with
  | text t =>
    simp only [formula?, Option.ite_none_right_eq_some, Option.some.injEq, text.injEq]
    exact ⟨fun ⟨h, e⟩ => ⟨e, e ▸ h⟩, fun ⟨e, h⟩ => ⟨e ▸ h, e⟩⟩
  | _ => simp [formula?]

end Content

end Spreadsheet
