import Spreadsheet.Graph.Reach

/-!
The cells that lie on a cycle. A depth-first search along the precedents numbers the cells as it
enters them. A cell stays on a stack until all cells that lead to it and back are known. Its low link
is a number on the stack that it leads to. A cell that is left with its own number as its low link is
the first of its component, and the component is what lies on the stack from there on.
-/
namespace Spreadsheet.Graph

/-- The numbers of the cells entered, their low links, and the cells whose components are not
complete. The stack has its top first. -/
structure Tarjan where
  index : CellMap Nat
  lowlink : CellMap Nat
  stack : List Cell
  onStack : CellSet
  circular : CellSet

namespace Tarjan

/-- A cell that is entered and not left, and the cells that it reads as far as they are not followed
yet. -/
structure Frame where
  node : Cell
  successors : List Cell

def start : Tarjan := ⟨∅, ∅, [], ∅, ∅⟩

def number (t : Tarjan) (c : Cell) : Nat := t.index[c]?.getD 0

def low (t : Tarjan) (c : Cell) : Nat := t.lowlink[c]?.getD 0

/-- Enter a cell. -/
def visit (t : Tarjan) (c : Cell) : Tarjan :=
  { t with
    index := t.index.insert c t.index.size
    lowlink := t.lowlink.insert c t.index.size
    stack := c :: t.stack
    onStack := t.onStack.insert c }

def lower (t : Tarjan) (c : Cell) (candidate : Nat) : Tarjan :=
  { t with lowlink := t.lowlink.modify c (min · candidate) }

/-- Lower the low link of the frame on top. -/
def lowerTop (t : Tarjan) (candidate : Nat) : (work : List Frame) → Tarjan
  | [] => t
  | frame :: _ => t.lower frame.node candidate

/-- The cells of a stack down to `root`, and the stack below. -/
def popTo (root : Cell) : List Cell → List Cell × List Cell
  | [] => ([], [])
  | c :: cs =>
    if c = root then ([c], cs)
    else
      let (component, stack) := popTo root cs
      (c :: component, stack)

/-- Complete the component of `root`. It is on a cycle if it has a second cell, or if `root` reads
itself. -/
def popComponent (t : Tarjan) (g : Graph) (root : Cell) : Tarjan :=
  let (component, stack) := popTo root t.stack
  let selfLoop := (g.precedentsOf? root).any (·.contains root)
  { t with
    stack
    onStack := component.foldl (·.erase ·) t.onStack
    circular :=
      if 1 < component.length || selfLoop then component.foldl (·.insert ·) t.circular
      else t.circular }

/-- One round: follow a cell that the top frame reads, or leave the frame. -/
def step (t : Tarjan) (g : Graph) (frame : Frame) (work : List Frame) : Tarjan × List Frame :=
  match frame.successors with
  | next :: successors =>
    let frame := { frame with successors }
    match t.index[next]? with
    | none => (t.visit next, ⟨next, g.precedentsOf next⟩ :: frame :: work)
    | some number =>
      (if next ∈ t.onStack then t.lower frame.node number else t, frame :: work)
  | [] =>
    let low := t.low frame.node
    let t := t.lowerTop low work
    (if low = t.number frame.node then t.popComponent g frame.node else t, work)

/-- The cells with precedents that are not entered yet. -/
def unvisited (t : Tarjan) (g : Graph) : List Cell := unmet g.precedents t.index.contains

/-- How many rounds the frames take as long as no cell with precedents is entered. -/
def load : (work : List Frame) → Nat
  | [] => 0
  | frame :: work => 2 * frame.successors.length + 1 + load work

@[simp] theorem unvisited_lower (t : Tarjan) (g : Graph) (c : Cell) (n : Nat) :
    (t.lower c n).unvisited g = t.unvisited g := rfl

@[simp] theorem unvisited_lowerTop (t : Tarjan) (g : Graph) (n : Nat) (work : List Frame) :
    (t.lowerTop n work).unvisited g = t.unvisited g := by
  cases work <;> rfl

@[simp] theorem unvisited_popComponent (t : Tarjan) (g : Graph) (c : Cell) :
    (t.popComponent g c).unvisited g = t.unvisited g := rfl

/-- Every round enters a cell with precedents or makes the load smaller. -/
theorem step_lt (t : Tarjan) (g : Graph) (frame : Frame) (work : List Frame) :
    Prod.Lex (· < ·) (· < ·)
      (((t.step g frame work).1.unvisited g).length, load (t.step g frame work).2)
      ((t.unvisited g).length, load (frame :: work)) := by
  obtain ⟨node, successors⟩ := frame
  cases successors with
  | nil =>
    have hsame : (t.step g ⟨node, []⟩ work).1.unvisited g = t.unvisited g := by
      simp only [step, apply_ite (unvisited · g), unvisited_popComponent, unvisited_lowerTop,
        ite_self]
    rw [hsame]
    apply Prod.Lex.right
    simp [step, load]
  | cons next successors =>
    cases h : t.index[next]? with
    | some n =>
      have hsame : (t.step g ⟨node, next :: successors⟩ work).1.unvisited g = t.unvisited g := by
        simp only [step, h, apply_ite (unvisited · g), unvisited_lower, ite_self]
      rw [hsame]
      apply Prod.Lex.right
      simp only [step, h, load, List.length_cons]
      omega
    | none =>
      have hnew : t.index.contains next = false := by
        rw [Std.ExtTreeMap.contains_eq_isSome_getElem?, h]
        rfl
      simp only [step, h]
      apply unmet_lex (t.index.contains_insert next t.index.size) hnew
      intro hleaf
      simp only [load, precedentsOf_of_not_mem hleaf, List.length_cons, List.length_nil]
      omega

def run (t : Tarjan) (g : Graph) : (work : List Frame) → Tarjan
  | [] => t
  | frame :: work => run (t.step g frame work).1 g (t.step g frame work).2
termination_by work => ((t.unvisited g).length, load work)
decreasing_by exact step_lt t g frame work

/-- Search from a cell that is not entered yet. -/
def search (g : Graph) (t : Tarjan) (root : Cell) : Tarjan :=
  if root ∈ t.index then t else (t.visit root).run g [⟨root, g.precedentsOf root⟩]

end Tarjan

def circularCells (g : Graph) : CellSet :=
  (g.precedents.keys.foldl (Tarjan.search g) .start).circular

end Spreadsheet.Graph
