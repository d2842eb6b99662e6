import Spreadsheet.Grid
import Spreadsheet.Proofs.Range

/-!
The grid as a total map from cells to contents. A write changes one cell and no other, and in a
grid whose rows are no longer than its width every cell that holds something lies in the used range.
-/
namespace Spreadsheet

/-- A cell with a row and a column after it. -/
def Cell.Inner (c : Cell) : Prop :=
  c.row.toNat + 1 < UInt32.size ∧ c.col.toNat + 1 < UInt32.size

instance (c : Cell) : Decidable c.Inner := inferInstanceAs (Decidable (_ ∧ _))

namespace Grid

variable {g : Grid} {c d : Cell} {v : Content}

/-- No row is longer than the width, and rows and columns can be numbered. -/
structure Bounded (g : Grid) : Prop where
  size_row_le : ∀ i, (g.row i).size ≤ g.width
  height_lt : g.height < UInt32.size
  width_lt : g.width < UInt32.size

theorem row_eq_empty {i : Nat} (h : g.height ≤ i) : g.row i = #[] := by
  rw [row, Array.getElem?_eq_none h, Option.getD_none]

theorem get_eq_empty (h : (g.row c.row.toNat).size ≤ c.col.toNat) : g.get c = .empty := by
  rw [get, Array.getElem?_eq_none h, Option.getD_none]

/-- What holds of all contents of the rows and of nothing holds of every cell. -/
theorem get_of_all {P : Content → Prop} (hrows : ∀ row ∈ g.rows, ∀ v ∈ row, P v)
    (hempty : P .empty) (c : Cell) : P (g.get c) := by
  unfold get row
  cases hrow : g.rows[c.row.toNat]? with
  | none => simpa using hempty
  | some row =>
    have hmem := Array.mem_of_getElem? hrow
    cases hv : row[c.col.toNat]? with
    | none => simpa [hv] using hempty
    | some v => simpa [hv] using hrows row hmem v (Array.mem_of_getElem? hv)

theorem getD_getElem?_rightpad {α : Type} (xs : Array α) (n i : Nat) (a : α) :
    (xs.rightpad n a)[i]?.getD a = xs[i]?.getD a := by
  unfold Array.rightpad
  by_cases hi : i < xs.size
  · rw [Array.getElem?_append_left hi]
  · rw [Array.getElem?_append_right (Nat.not_lt.1 hi), Array.getElem?_replicate,
      Array.getElem?_eq_none (Nat.not_lt.1 hi)]
    split <;> rfl

theorem set_eq_of_kept (h : v = .empty ∧ (g.row c.row.toNat).size ≤ c.col.toNat) :
    g.set c v = g := if_pos h

section Stored

variable (h : ¬(v = .empty ∧ (g.row c.row.toNat).size ≤ c.col.toNat))
include h

theorem width_set : (g.set c v).width = max g.width (c.col.toNat + 1) := by
  rw [set, if_neg h]

theorem height_set : (g.set c v).height = max g.height (c.row.toNat + 1) := by
  rw [set, if_neg h, height, Array.size_setIfInBounds, Array.size_rightpad, height, Nat.max_comm]

theorem row_set (i : Nat) : (g.set c v).row i =
    if i = c.row.toNat then
      ((g.row c.row.toNat).rightpad (c.col.toNat + 1) .empty).setIfInBounds c.col.toNat v
    else g.row i := by
  rw [set, if_neg h, row, Array.getElem?_setIfInBounds, Array.size_rightpad]
  by_cases hi : i = c.row.toNat
  · have hlt : c.row.toNat < max (c.row.toNat + 1) g.rows.size := by omega
    rw [if_pos hi.symm, if_pos hi, if_pos hlt, Option.getD_some]
  · rw [if_neg (Ne.symm hi), if_neg hi, getD_getElem?_rightpad, row]

theorem size_row_set (i : Nat) : ((g.set c v).row i).size =
    if i = c.row.toNat then max (g.row i).size (c.col.toNat + 1) else (g.row i).size := by
  rw [row_set h]
  by_cases hi : i = c.row.toNat
  · subst i
    rw [if_pos rfl, if_pos rfl, Array.size_setIfInBounds, Array.size_rightpad, Nat.max_comm]
  · rw [if_neg hi, if_neg hi]

end Stored

theorem get_set (g : Grid) (c d : Cell) (v : Content) :
    (g.set c v).get d = if c = d then v else g.get d := by
  by_cases h : v = .empty ∧ (g.row c.row.toNat).size ≤ c.col.toNat
  · rw [set_eq_of_kept h]
    by_cases hcd : c = d
    · subst d
      rw [if_pos rfl, get_eq_empty h.2, h.1]
    · rw [if_neg hcd]
  · rw [get, row_set h, get]
    by_cases hrow : d.row.toNat = c.row.toNat
    · rw [if_pos hrow, hrow, Array.getElem?_setIfInBounds, Array.size_rightpad]
      by_cases hcol : c.col.toNat = d.col.toNat
      · have hcd : c = d := Cell.eq_iff_toNat.2 ⟨hrow.symm, hcol⟩
        have hlt : c.col.toNat < max (c.col.toNat + 1) (g.row c.row.toNat).size := by omega
        rw [if_pos hcol, if_pos hlt, if_pos hcd, Option.getD_some]
      · have hcd : c ≠ d := fun hcd => hcol (by rw [hcd])
        rw [if_neg hcol, if_neg hcd, getD_getElem?_rightpad]
    · have hcd : c ≠ d := fun hcd => hrow (by rw [hcd])
      rw [if_neg hrow, if_neg hcd]

theorem Bounded.set (hg : g.Bounded) (hc : c.Inner) (v : Content) : (g.set c v).Bounded := by
  by_cases h : v = .empty ∧ (g.row c.row.toNat).size ≤ c.col.toNat
  · rw [set_eq_of_kept h]
    exact hg
  · obtain ⟨hrow, hcol⟩ := hc
    refine ⟨fun i => ?_, ?_, ?_⟩
    · have hi := hg.size_row_le i
      rw [size_row_set h, width_set h]
      split <;> omega
    · have hh := hg.height_lt
      rw [height_set h]
      omega
    · have hw := hg.width_lt
      rw [width_set h]
      omega

theorem Bounded.foldl_set (hg : g.Bounded) {edits : List (Cell × Content)}
    (h : ∀ e ∈ edits, e.1.Inner) : (edits.foldl (fun g e => g.set e.1 e.2) g).Bounded := by
  induction edits generalizing g with
  | nil => exact hg
  | cons e edits ih =>
    have he := h e List.mem_cons_self
    exact ih (hg.set he e.2) fun e' he' => h e' (List.mem_cons_of_mem e he')

section OfRows

variable {rows : Array (Array Content)}

theorem le_foldl_max (rows : List (Array Content)) (w : Nat) :
    w ≤ rows.foldl (fun w r => max w r.size) w ∧
      ∀ r ∈ rows, r.size ≤ rows.foldl (fun w r => max w r.size) w := by
  induction rows generalizing w with
  | nil => simp
  | cons r rows ih =>
    obtain ⟨hw, hr⟩ := ih (max w r.size)
    rw [List.foldl_cons, List.forall_mem_cons]
    exact ⟨by omega, by omega, hr⟩

theorem foldl_max_lt {rows : List (Array Content)} {w n : Nat} (hw : w < n)
    (h : ∀ r ∈ rows, r.size < n) : rows.foldl (fun w r => max w r.size) w < n := by
  induction rows generalizing w with
  | nil => exact hw
  | cons r rows ih =>
    obtain ⟨hr, h⟩ := List.forall_mem_cons.1 h
    have hmax : max w r.size < n := by omega
    exact ih hmax h

theorem bounded_ofRows (hrows : rows.size < UInt32.size)
    (hcols : ∀ r ∈ rows, r.size < UInt32.size) : (ofRows rows).Bounded := by
  refine ⟨fun i => ?_, hrows, ?_⟩
  · unfold row ofRows
    rw [← Array.foldl_toList]
    cases h : rows[i]? with
    | none => exact Nat.zero_le _
    | some r => exact (le_foldl_max rows.toList 0).2 r (Array.mem_of_getElem? h).val
  · unfold ofRows
    rw [← Array.foldl_toList]
    exact foldl_max_lt (by decide) fun r hr => hcols r (Array.mem_toList_iff.1 hr)

end OfRows

/-- A grid built from rows by writes, with rows and columns that can be numbered. -/
inductive Built : Grid → Prop
  | ofRows (rows : Array (Array Content)) (hrows : rows.size < UInt32.size)
      (hcols : ∀ r ∈ rows, r.size < UInt32.size) : Built (ofRows rows)
  | set {g : Grid} {c : Cell} (hg : Built g) (hc : c.Inner) (v : Content) : Built (g.set c v)

theorem Built.bounded (hg : g.Built) : g.Bounded := by
  induction hg with
  | ofRows rows hrows hcols => exact bounded_ofRows hrows hcols
  | set _ hc v ih => exact ih.set hc v

theorem Bounded.contains_of_get (hg : g.Bounded) (h : g.get c ≠ .empty) :
    ∃ r, g.usedRange? = some r ∧ r.contains c = true := by
  have hcol : c.col.toNat < (g.row c.row.toNat).size := by
    refine Nat.not_le.1 fun hle => h (get_eq_empty hle)
  have hwidth : c.col.toNat < g.width := Nat.lt_of_lt_of_le hcol (hg.size_row_le _)
  have hrow : c.row.toNat < g.height := by
    refine Nat.not_le.1 fun hle => ?_
    rw [row_eq_empty hle] at hcol
    exact Nat.not_lt_zero _ hcol
  have hne : ¬(g.height = 0 ∨ g.width = 0) := by omega
  refine ⟨_, if_neg hne, ?_⟩
  have hr : (g.height - 1).toUInt32.toNat = g.height - 1 :=
    UInt32.toNat_ofNat_of_lt' (by have := hg.height_lt; omega)
  have hc : (g.width - 1).toUInt32.toNat = g.width - 1 :=
    UInt32.toNat_ofNat_of_lt' (by have := hg.width_lt; omega)
  have hmin (x : UInt32) : min 0 x = 0 := UInt32.toNat_inj.1 (by simp [Min.min])
  have hmax (x : UInt32) : max 0 x = x := UInt32.toNat_inj.1 (by simp [Max.max])
  rw [Range.contains_iff]
  simp only [Range.ofCorners, hmin, hmax, hr, hc, UInt32.toNat_zero]
  omega

end Grid

end Spreadsheet
