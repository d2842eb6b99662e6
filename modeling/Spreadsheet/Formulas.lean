import Spreadsheet.Cell
import Spreadsheet.Content

/-!
The formula texts of a sheet by cell. A cell has an entry exactly while its content is a formula.
-/
namespace Spreadsheet

@[ext]
structure Formulas where
  texts : CellMap String

namespace Formulas

def empty : Formulas := ⟨∅⟩

def get? (f : Formulas) (c : Cell) : Option String := f.texts[c]?

def contains (f : Formulas) (c : Cell) : Bool := f.texts.contains c

def size (f : Formulas) : Nat := f.texts.size

def isEmpty (f : Formulas) : Bool := f.texts.isEmpty

/-- The cells with a formula, in order. -/
def cells (f : Formulas) : List Cell := f.texts.keys

def entries (f : Formulas) : List (Cell × String) := f.texts.toList

def put (f : Formulas) (c : Cell) : Option String → Formulas
  | some s => ⟨f.texts.insert c s⟩
  | none => ⟨f.texts.erase c⟩

def erase (f : Formulas) (c : Cell) : Formulas := f.put c none

/-- Whether putting a text, or none, at a cell is a change. -/
def alters (f : Formulas) (c : Cell) (s : Option String) : Bool := f.get? c != s

/-- The text as a formula, if it is one. -/
def asFormula (s : String) : Option String := if Content.isFormulaText s then some s else none

def insert (f : Formulas) (c : Cell) (s : String) : Formulas := f.put c (asFormula s)

/-- Take note of the content of a cell. -/
def record (f : Formulas) (c : Cell) (v : Content) : Formulas := f.put c v.formula?

def ofList (entries : List (Cell × String)) : Formulas :=
  entries.foldl (fun f e => f.insert e.1 e.2) empty

theorem ext_get? {f g : Formulas} (h : ∀ c, f.get? c = g.get? c) : f = g :=
  Formulas.ext (Std.ExtTreeMap.ext_getElem? h)

@[simp] theorem get?_empty (c : Cell) : empty.get? c = none := by simp [get?, empty]

theorem get?_put (f : Formulas) (c d : Cell) (s : Option String) :
    (f.put c s).get? d = if c = d then s else f.get? d := by
  cases s <;> simp [put, get?, Std.ExtTreeMap.getElem?_insert, Std.ExtTreeMap.getElem?_erase]

theorem put_of_not_alters {f : Formulas} {c : Cell} {s : Option String}
    (h : f.alters c s = false) : f.put c s = f := by
  refine ext_get? fun d => ?_
  rw [get?_put]
  split
  · rename_i hd
    subst hd
    exact (by simpa [alters] using h : f.get? c = s).symm
  · rfl

end Formulas

end Spreadsheet
