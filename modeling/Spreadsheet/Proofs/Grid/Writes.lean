import Mathlib.Order.Lattice
import Spreadsheet.Proofs.Grid

/-!
A grid after any writes. A write changes one cell of the total map and enlarges the box of rows and
columns just as far as that cell needs. So a cell holds what was written to it last, no row is longer
than the width, and some row is as long, unless the width is zero.
-/
namespace Spreadsheet.Grid

variable {g : Grid} {c : Cell} {v : Content} {initial : Cell → Content}
  {edits more : List (Cell × Content)}

/-- A grid before any write, with what its cells hold. -/
inductive Fresh : Grid → (Cell → Content) → Prop
  | empty : Fresh empty fun _ => .empty
  | ofRows (rows : Array (Array Content)) (hrows : rows.size < UInt32.size)
      (hcols : ∀ r ∈ rows, r.size < UInt32.size) :
      Fresh (ofRows rows) fun c => (rows[c.row.toNat]?.bind (·[c.col.toNat]?)).getD .empty

/-- The grid after some writes. -/
def write (g : Grid) (edits : List (Cell × Content)) : Grid :=
  edits.foldl (fun g e => g.set e.1 e.2) g

/-- What was written to a cell last, if anything was. -/
def lastWrite? (edits : List (Cell × Content)) (c : Cell) : Option Content :=
  edits.reverse.lookup c

theorem write_cons (g : Grid) (e : Cell × Content) (edits : List (Cell × Content)) :
    g.write (e :: edits) = (g.set e.1 e.2).write edits := rfl

theorem write_append (g : Grid) (edits more : List (Cell × Content)) :
    g.write (edits ++ more) = (g.write edits).write more := List.foldl_append

theorem lastWrite?_cons (e : Cell × Content) (edits : List (Cell × Content)) (c : Cell) :
    lastWrite? (e :: edits) c = (lastWrite? edits c).or (if e.1 = c then some e.2 else none) := by
  rw [lastWrite?, List.reverse_cons, List.lookup_append, List.lookup_cons, ← lastWrite?]
  by_cases hc : e.1 = c
  · simp [hc]
  · simp [hc, beq_eq_false_iff_ne.2 (Ne.symm hc)]

theorem lastWrite?_eq_none_iff : lastWrite? edits c = none ↔ ∀ e ∈ edits, e.1 ≠ c := by
  simp only [lastWrite?, List.lookup_eq_none_iff, List.mem_reverse, bne_iff_ne, ne_comm]

theorem mem_of_lastWrite? (h : lastWrite? edits c = some v) : (c, v) ∈ edits := by
  obtain ⟨before, after, hsplit, -⟩ := List.lookup_eq_some_iff.1 h
  have hmem : (c, v) ∈ edits.reverse := by simp [hsplit]
  exact List.mem_reverse.1 hmem

/-- A cell holds what was written to it last. -/
theorem get_write (g : Grid) (edits : List (Cell × Content)) (c : Cell) :
    (g.write edits).get c = (lastWrite? edits c).getD (g.get c) := by
  induction edits generalizing g with
  | nil => rfl
  | cons e edits ih =>
    rw [write_cons, ih, get_set, lastWrite?_cons]
    cases lastWrite? edits c with
    | some v => rfl
    | none => split <;> rfl

theorem Fresh.get_eq (h : Fresh g initial) (c : Cell) : g.get c = initial c := by
  cases h with
  | empty => exact get_empty c
  | ofRows rows hrows hcols =>
    simp only [get, row, Grid.ofRows]
    cases rows[c.row.toNat]? <;> rfl

theorem Fresh.bounded (h : Fresh g initial) : g.Bounded := by
  cases h with
  | empty =>
    have hcols : ∀ r ∈ (#[] : Array (Array Content)), r.size < UInt32.size := by simp
    exact bounded_ofRows (by decide) hcols
  | ofRows rows hrows hcols => exact bounded_ofRows hrows hcols

section Box

theorem height_le_set (g : Grid) (c : Cell) (v : Content) : g.height ≤ (g.set c v).height := by
  by_cases h : v = .empty ∧ (g.row c.row.toNat).size ≤ c.col.toNat
  · rw [set_eq_of_kept h]
  · rw [height_set h]
    exact Nat.le_max_left _ _

theorem width_le_set (g : Grid) (c : Cell) (v : Content) : g.width ≤ (g.set c v).width := by
  by_cases h : v = .empty ∧ (g.row c.row.toNat).size ≤ c.col.toNat
  · rw [set_eq_of_kept h]
  · rw [width_set h]
    exact Nat.le_max_left _ _

theorem le_write (g : Grid) (edits : List (Cell × Content)) :
    g.height ≤ (g.write edits).height ∧ g.width ≤ (g.write edits).width := by
  induction edits generalizing g with
  | nil => exact ⟨Nat.le_refl _, Nat.le_refl _⟩
  | cons e edits ih =>
    obtain ⟨hheight, hwidth⟩ := ih (g.set e.1 e.2)
    exact ⟨(g.height_le_set e.1 e.2).trans hheight, (g.width_le_set e.1 e.2).trans hwidth⟩

/-- The width is that of a row, where a row that is not stored has none. -/
def Filled (g : Grid) : Prop := ∃ i, (g.row i).size = g.width

theorem foldl_max_mem (rows : List (Array Content)) (w : Nat) :
    rows.foldl (fun w r => max w r.size) w = w ∨
      ∃ r ∈ rows, r.size = rows.foldl (fun w r => max w r.size) w := by
  induction rows generalizing w with
  | nil => exact .inl rfl
  | cons r rows ih =>
    rw [List.foldl_cons]
    rcases ih (max w r.size) with h | ⟨r', hr', h⟩
    · rw [h]
      rcases Nat.le_total r.size w with hle | hle
      · exact .inl (Nat.max_eq_left hle)
      · exact .inr ⟨r, List.mem_cons_self, (Nat.max_eq_right hle).symm⟩
    · exact .inr ⟨r', List.mem_cons_of_mem r hr', h⟩

theorem filled_ofRows (rows : Array (Array Content)) : (ofRows rows).Filled := by
  have hwidth : (ofRows rows).width = rows.toList.foldl (fun w r => max w r.size) 0 := by
    rw [ofRows, Array.foldl_toList]
  rw [Filled, hwidth]
  rcases foldl_max_mem rows.toList 0 with h | ⟨r, hr, h⟩
  · refine ⟨rows.size, ?_⟩
    have hrow : (ofRows rows).row rows.size = #[] := row_eq_empty (Nat.le_refl _)
    rw [h, hrow, Array.size_empty]
  · obtain ⟨i, hi⟩ := List.mem_iff_getElem?.1 hr
    refine ⟨i, ?_⟩
    rw [← h, row, ofRows, ← Array.getElem?_toList, hi, Option.getD_some]

theorem Fresh.filled (h : Fresh g initial) : g.Filled := by
  cases h with
  | empty => exact filled_ofRows #[]
  | ofRows rows hrows hcols => exact filled_ofRows rows

theorem Filled.set (hg : g.Filled) (hle : ∀ i, (g.row i).size ≤ g.width) (c : Cell) (v : Content) :
    (g.set c v).Filled := by
  by_cases h : v = .empty ∧ (g.row c.row.toNat).size ≤ c.col.toNat
  · rw [set_eq_of_kept h]
    exact hg
  obtain ⟨i, hi⟩ := hg
  rcases Nat.le_total (c.col.toNat + 1) g.width with hcol | hcol
  · refine ⟨i, ?_⟩
    rw [size_row_set h, width_set h]
    split <;> omega
  · have hrow := hle c.row.toNat
    refine ⟨c.row.toNat, ?_⟩
    rw [size_row_set h, width_set h, if_pos rfl]
    omega

theorem Filled.write (hg : g.Filled) (hbounded : g.Bounded) (h : ∀ e ∈ edits, e.1.Inner) :
    (g.write edits).Filled := by
  induction edits generalizing g with
  | nil => exact hg
  | cons e edits ih =>
    obtain ⟨he, h⟩ := List.forall_mem_cons.1 h
    exact ih (hg.set hbounded.size_row_le e.1 e.2) (hbounded.set he e.2) h

/-- No stored row is longer than the width, and one is as long unless the width is zero. -/
theorem Filled.width_spec (hg : g.Filled) (hle : ∀ i, (g.row i).size ≤ g.width) :
    (∀ r ∈ g.rows, r.size ≤ g.width) ∧ (g.width = 0 ∨ ∃ r ∈ g.rows, r.size = g.width) := by
  have hstored {i : Nat} {r : Array Content} (hi : g.rows[i]? = some r) : g.row i = r := by
    rw [row, hi, Option.getD_some]
  constructor
  · intro r hr
    obtain ⟨i, hi⟩ := Array.mem_iff_getElem?.1 hr
    exact hstored hi ▸ hle i
  · obtain ⟨i, hi⟩ := hg
    cases hr : g.rows[i]? with
    | none =>
      rw [row, hr] at hi
      exact .inl hi.symm
    | some r => exact .inr ⟨r, Array.mem_of_getElem? hr, hstored hr ▸ hi⟩

end Box

/-- After any writes to cells with a row and a column behind them, a cell holds what was written to
it last, else what it held at first; the width is the length of the longest stored row; further
writes take away no row and no column; and every cell that is not empty lies in the used range. -/
theorem write_of_fresh (hfresh : Fresh g initial) (hinner : ∀ e ∈ edits, e.1.Inner) :
    (∀ c, (g.write edits).get c = (lastWrite? edits c).getD (initial c)) ∧
      ((∀ r ∈ (g.write edits).rows, r.size ≤ (g.write edits).width) ∧
        ((g.write edits).width = 0 ∨
          ∃ r ∈ (g.write edits).rows, r.size = (g.write edits).width)) ∧
      (∀ before after, edits = before ++ after →
        (g.write before).height ≤ (g.write edits).height ∧
          (g.write before).width ≤ (g.write edits).width) ∧
      ∀ c, (g.write edits).get c ≠ .empty →
        ∃ r, (g.write edits).usedRange? = some r ∧ r.contains c = true := by
  have hbounded : (g.write edits).Bounded := hfresh.bounded.foldl_set hinner
  have hfilled : (g.write edits).Filled := hfresh.filled.write hfresh.bounded hinner
  refine ⟨fun c => ?_, hfilled.width_spec hbounded.size_row_le, ?_, fun c hc => ?_⟩
  · rw [get_write, hfresh.get_eq]
  · rintro before after rfl
    rw [write_append]
    exact le_write _ after
  · exact hbounded.contains_of_get hc

/-- Two rows, the second of them empty. A blank written beside the rows is dropped, one written over
a number stays, and a write below the rows makes a new one and a new width. -/
theorem write_of_fresh_ragged :
    let rows : Array (Array Content) := #[#[.number 1, .number 2], #[]]
    let edits : List (Cell × Content) :=
      [(⟨9, 9⟩, .empty), (⟨0, 1⟩, .empty), (⟨3, 2⟩, .number 5), (⟨3, 2⟩, .text "x")]
    let g := (ofRows rows).write edits
    (∀ e ∈ edits, e.1.Inner) ∧ g.get ⟨3, 2⟩ = .text "x" ∧ g.get ⟨0, 0⟩ = .number 1 ∧
      g.height = 4 ∧ g.width = 3 ∧ ∃ r, g.usedRange? = some r ∧ r.contains ⟨3, 2⟩ = true := by
  intro rows edits g
  have hinner : ∀ e ∈ edits, e.1.Inner := by decide +kernel
  have hfresh := Fresh.ofRows rows (by decide) (by decide +kernel)
  obtain ⟨hget, -, -, hused⟩ := write_of_fresh hfresh hinner
  have hlast : g.get ⟨3, 2⟩ = .text "x" := hget ⟨3, 2⟩
  have hfirst : g.get ⟨0, 0⟩ = .number 1 := hget ⟨0, 0⟩
  refine ⟨hinner, hlast, hfirst, by decide +kernel, by decide +kernel, hused ⟨3, 2⟩ ?_⟩
  rw [hlast]
  nofun

end Spreadsheet.Grid
