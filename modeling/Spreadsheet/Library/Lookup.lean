import Spreadsheet.Formula.Argument
import Spreadsheet.Number.Rounding

/-!
Looking up a value in the first column of a range. The rows are tried from the top; the first whose
computed key matches gives the stored content in the asked column. A number never matches what is
no number, and a blank key no zero.
-/
namespace Spreadsheet

inductive MatchMode where
  /-- Equal numbers, or equal text. -/
  | exact
  /-- Numbers no further apart than the tolerance, or equal text up to case and blanks around it. -/
  | approximate (tolerance : Float)

namespace MatchMode

def numbersMatch : MatchMode → Float → Float → Bool
  | .exact, x, y => x == y
  | .approximate tolerance, x, y => (x - y).abs ≤ tolerance

def textsMatch : MatchMode → String → String → Bool
  | .exact, s, t => s == t
  | .approximate _, s, t => Text.sameIgnoringCase (Text.trim s.toList) (Text.trim t.toList)

def accepts (m : MatchMode) (needle key : Value) : Bool :=
  match needle.number?, key.number? with
  | some x, some y => m.numbersMatch x y
  | none, none => m.textsMatch needle.asText key.asText
  | _, _ => false

/-- Whether a flag asks for an exact match: it is false, zero or the text `FALSE`. -/
def isExactFlag : Value → Bool
  | .boolean b => !b
  | .number x => x == 0
  | .text s => Text.sameIgnoringCase (Text.trim s.toList) ['F', 'A', 'L', 'S', 'E']
  | _ => false

end MatchMode

namespace LibraryFunction

/-- The column `index` columns into a table whose first column is `first`, counted from one. -/
def resultColumn (first index : UInt32) : UInt32 := first + index - 1

/-- The content at `column` of the first row whose key in column `keys` matches. -/
def firstMatch (m : MatchMode) (needle : Value) (keys column : UInt32) : List UInt32 → Query Value
  | [] => .done (.error .notAvailable)
  | row :: rows =>
    .computed ⟨row, keys⟩ fun key =>
      if m.accepts needle key then .stored ⟨row, column⟩ fun c => .done (.ofContent c)
      else firstMatch m needle keys column rows

section
variable (o : Options) (eval : Text → Query Value)

def matchMode (flag : Option Argument) : Query MatchMode :=
  match flag with
  | none => .done (.approximate o.tolerance)
  | some a => do
    return if MatchMode.isExactFlag (← a.value eval) then .exact else .approximate o.tolerance

/-- The rows of a table searched for a needle, once the column is known to lie in the table. -/
def lookupIn (needle : Value) (table : Range) (index : Float) (flag : Option Argument) :
    Query Value := do
  let mode ← matchMode o eval flag
  let index := (Number.truncClamped 0 (UInt32.size - 1) index).toNat.toUInt32
  firstMatch mode needle table.start.col (resultColumn table.start.col index) table.rows

/-- The column that an argument asks for: a whole number, or an error read from a cell. -/
def columnIndex (column : Argument) : Query (Except CellError Float) := do
  match ← column.value eval with
  | .error e => return .error e
  | v =>
    match v.number? with
    | some x => return .ok (Number.trunc x)
    | none => .fail (.columnExpected column.text)

def lookupOf (needle table column : Argument) (flag : Option Argument) : Query Value := do
  match ← needle.value eval with
  | .error e => return .error e
  | needle =>
    match table.kind with
    | .range r =>
      .ofExcept (o.checkRange r)
      match ← columnIndex eval column with
      | .error e => return .error e
      | .ok index =>
        if index < 1 || Float.ofNat r.colCount < index then .fail (.columnOutside index r.colCount)
        else lookupIn o eval needle r index flag
    | _ => .fail (.tableExpected table.text)

end

end LibraryFunction

end Spreadsheet
