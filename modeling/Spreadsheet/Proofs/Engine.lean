import Spreadsheet.Engine
import Spreadsheet.Proofs.Grid

/-!
An engine kept in step with a grid. The formulas of a grid are those of its cells, a write changes
them as the note taken of it does, and edits that alter no formula leave nothing to rebuild. So
taking note of edits gives what loading the edited grid gives.
-/
namespace Spreadsheet

theorem Formulas.get?_record (f : Formulas) (c d : Cell) (v : Content) :
    (f.record c v).get? d = if c = d then v.formula? else f.get? d :=
  f.get?_put c d v.formula?

namespace Engine

variable {g : Grid} {c d : Cell} {f : Formulas} {edits : List (Cell × Content)}

theorem get?_foldl_record (g : Grid) (cs : List Cell) (f : Formulas) :
    (cs.foldl (fun f c => f.record c (g.get c)) f).get? d =
      if d ∈ cs then (g.get d).formula? else f.get? d := by
  induction cs generalizing f with
  | nil => simp
  | cons c cs ih =>
    rw [List.foldl_cons, ih, Formulas.get?_record]
    by_cases hd : d ∈ cs
    · simp [hd]
    · by_cases hcd : c = d
      · subst d
        simp
      · simp [hd, hcd, Ne.symm hcd]

theorem get?_formulasOf (hg : g.Bounded) (c : Cell) :
    (formulasOf g).get? c = (g.get c).formula? := by
  by_cases hc : g.get c = .empty
  · have hf : (g.get c).formula? = none := by rw [hc]; rfl
    unfold formulasOf
    split
    · rw [Formulas.get?_empty, hf]
    · rw [get?_foldl_record, Formulas.get?_empty, hf]
      exact ite_self none
  · obtain ⟨r, hr, hmem⟩ := hg.contains_of_get hc
    have hcells : c ∈ r.cells := Range.mem_cells.2 hmem
    simp only [formulasOf, hr]
    rw [get?_foldl_record, if_pos hcells]

theorem formulasOf_set (hg : g.Bounded) (hc : c.Inner) (v : Content) :
    formulasOf (g.set c v) = (formulasOf g).record c v := by
  refine Formulas.ext_get? fun d => ?_
  rw [get?_formulasOf (hg.set hc v), Grid.get_set, Formulas.get?_record, get?_formulasOf hg]
  split <;> rfl

theorem formulasOf_foldl_set (hg : g.Bounded) (h : ∀ e ∈ edits, e.1.Inner) :
    formulasOf (edits.foldl (fun g e => g.set e.1 e.2) g) =
      edits.foldl (fun f e => f.record e.1 e.2) (formulasOf g) := by
  induction edits generalizing g with
  | nil => rfl
  | cons e edits ih =>
    obtain ⟨he, h⟩ := List.forall_mem_cons.1 h
    rw [List.foldl_cons, List.foldl_cons, ih (hg.set he e.2) h, formulasOf_set hg he]

theorem foldl_record_of_not_anyAlters (h : anyAlters f edits = false) :
    edits.foldl (fun f e => f.record e.1 e.2) f = f := by
  induction edits generalizing f with
  | nil => rfl
  | cons e edits ih =>
    obtain ⟨ha, h⟩ := Bool.or_eq_false_iff.1 h
    have hf : f.record e.1 e.2 = f := Formulas.put_of_not_alters ha
    rw [List.foldl_cons, ih h, hf]

theorem foldl_record_eq (e : Engine) (edits : List (Cell × Content)) :
    edits.foldl (fun e (c, v) => e.record c v) e =
      { e with formulas := edits.foldl (fun f e => f.record e.1 e.2) e.formulas } := by
  induction edits generalizing e with
  | nil => rfl
  | cons edit edits ih => exact ih (e.record edit.1 edit.2)

/-- Taking note of edits gives the engine of the edited grid. -/
theorem apply_load (o : Options) (hg : g.Bounded) (h : ∀ e ∈ edits, e.1.Inner) :
    ((empty o).load g).apply edits =
      (empty o).load (edits.foldl (fun g e => g.set e.1 e.2) g) := by
  rw [apply, foldl_record_eq]
  split
  · simp only [load, rebuild, formulasOf_foldl_set hg h]
  · rename_i hn
    have hf := foldl_record_of_not_anyAlters (Bool.not_eq_true _ ▸ hn)
    simp only [load, rebuild] at hf ⊢
    rw [hf, formulasOf_foldl_set hg h, hf]

end Engine

end Spreadsheet
