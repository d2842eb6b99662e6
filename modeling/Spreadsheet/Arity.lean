import Spreadsheet.Number.Form

/-!
How many arguments a function takes: a least count, and a greatest one unless there is no limit.
-/
namespace Spreadsheet

structure Arity where
  least : Nat
  most : Option Nat
  deriving DecidableEq, Repr

namespace Arity

def exactly (n : Nat) : Arity := ⟨n, some n⟩

def atLeast (n : Nat) : Arity := ⟨n, none⟩

def between (a b : Nat) : Arity := ⟨a, some b⟩

def admits (a : Arity) (n : Nat) : Bool := a.least ≤ n && a.most.all (n ≤ ·)

def text (a : Arity) : String :=
  match a.most with
  | none => s!"at least {a.least}"
  | some n => if n = a.least then s!"{n}" else s!"{a.least} to {n}"

end Arity

end Spreadsheet
