import Spreadsheet.Formula.Error

/-!
What evaluating a formula asks of the sheet. A query either ends, with a result or a failure, or
asks for one cell, computed or as stored, and goes on with the answer. A formula meets the sheet in
no other way.
-/
namespace Spreadsheet

inductive Query (α : Type) where
  | done (a : α)
  | fail (e : FormulaError)
  | computed (c : Cell) (next : Value → Query α)
  | stored (c : Cell) (next : Content → Query α)

namespace Query

variable {α β : Type}

def bind : Query α → (α → Query β) → Query β
  | .done a, f => f a
  | .fail e, _ => .fail e
  | .computed c next, f => .computed c fun v => (next v).bind f
  | .stored c next, f => .stored c fun v => (next v).bind f

instance : Monad Query where
  pure := .done
  bind := bind

theorem bind_done (q : Query α) : q.bind .done = q := by
  induction q with
  | done a => rfl
  | fail e => rfl
  | computed c next ih => simp only [bind, ih]
  | stored c next ih => simp only [bind, ih]

theorem bind_assoc {γ : Type} (q : Query α) (f : α → Query β) (g : β → Query γ) :
    (q.bind f).bind g = q.bind fun a => (f a).bind g := by
  induction q with
  | done a => rfl
  | fail e => rfl
  | computed c next ih => simp only [bind, ih]
  | stored c next ih => simp only [bind, ih]

instance : LawfulMonad Query :=
  LawfulMonad.mk' Query bind_done (fun _ _ => rfl) bind_assoc

def ofExcept : Except FormulaError α → Query α
  | .ok a => .done a
  | .error e => .fail e

/-- The query with its failure as a result. -/
def attempt : Query α → Query (Except FormulaError α)
  | .done a => .done (.ok a)
  | .fail e => .done (.error e)
  | .computed c next => .computed c fun v => (next v).attempt
  | .stored c next => .stored c fun v => (next v).attempt

/-- Go through the computed values of some cells. -/
def foldComputed (f : β → Value → β) : β → List Cell → Query β
  | b, [] => .done b
  | b, c :: cs => .computed c fun v => foldComputed f (f b v) cs

/-- Go through the stored contents of some cells. -/
def foldStored (f : β → Content → β) : β → List Cell → Query β
  | b, [] => .done b
  | b, c :: cs => .stored c fun v => foldStored f (f b v) cs

/-- The outcome when cells are read from a state that reading may change. -/
def run {σ : Type} (stored : Cell → Content) (computed : Cell → σ → Value × σ) :
    Query α → σ → Except FormulaError α × σ
  | .done a, s => (.ok a, s)
  | .fail e, s => (.error e, s)
  | .computed c next, s =>
    let (v, s) := computed c s
    run stored computed (next v) s
  | .stored c next, s => run stored computed (next (stored c)) s

end Query

end Spreadsheet
