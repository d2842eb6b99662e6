import Spreadsheet.Range

/-!
The cells of a range. A cell is listed exactly if its row and its column lie between the corners,
and then it stands at the place that its row and column offsets give. A range cut between two rows
has the cells of the upper block before those of the lower one.
-/
namespace Spreadsheet

theorem Cell.eq_iff_toNat {c d : Cell} :
    c = d ↔ c.row.toNat = d.row.toNat ∧ c.col.toNat = d.col.toNat := by
  cases c
  cases d
  rw [Cell.mk.injEq, UInt32.toNat_inj, UInt32.toNat_inj]

namespace Range

variable {r : Range} {c : Cell} {i s : Nat}

theorem contains_iff : r.contains c = true ↔
    (r.start.row.toNat ≤ c.row.toNat ∧ c.row.toNat ≤ r.stop.row.toNat) ∧
      r.start.col.toNat ≤ c.col.toNat ∧ c.col.toNat ≤ r.stop.col.toNat := by
  simp [contains, UInt32.le_iff_toNat_le, and_assoc]

theorem rowCount_eq (r : Range) : r.start.row.toNat + r.rowCount = r.stop.row.toNat + 1 := by
  have hle : r.start.row.toNat ≤ r.stop.row.toNat := UInt32.le_iff_toNat_le.1 r.row_le
  unfold rowCount
  omega

theorem colCount_eq (r : Range) : r.start.col.toNat + r.colCount = r.stop.col.toNat + 1 := by
  have hle : r.start.col.toNat ≤ r.stop.col.toNat := UInt32.le_iff_toNat_le.1 r.col_le
  unfold colCount
  omega

theorem cellAt_eq (q : Nat) (hs : s < r.colCount) :
    r.cellAt (q * r.colCount + s) = ⟨r.rowAt q, r.colAt s⟩ := by
  have hdiv : (q * r.colCount + s) / r.colCount = q := by
    rw [Nat.mul_comm, Nat.mul_add_div r.one_le_colCount, Nat.div_eq_of_lt hs, Nat.add_zero]
  have hmod : (q * r.colCount + s) % r.colCount = s := by
    rw [Nat.mul_comm, Nat.mul_add_mod, Nat.mod_eq_of_lt hs]
  rw [cellAt, hdiv, hmod]

theorem toNat_rowAt (h : i < r.rowCount) : (r.rowAt i).toNat = r.start.row.toNat + i := by
  have hle : r.start.row.toNat ≤ r.stop.row.toNat := UInt32.le_iff_toNat_le.1 r.row_le
  have hlt := r.stop.row.toNat_lt
  unfold rowCount at h
  exact UInt32.toNat_ofNat_of_lt' (by simp only [UInt32.size]; omega)

theorem toNat_colAt (h : i < r.colCount) : (r.colAt i).toNat = r.start.col.toNat + i := by
  have hle : r.start.col.toNat ≤ r.stop.col.toNat := UInt32.le_iff_toNat_le.1 r.col_le
  have hlt := r.stop.col.toNat_lt
  unfold colCount at h
  exact UInt32.toNat_ofNat_of_lt' (by simp only [UInt32.size]; omega)

theorem mem_rows {row : UInt32} :
    row ∈ r.rows ↔ r.start.row.toNat ≤ row.toNat ∧ row.toNat ≤ r.stop.row.toNat := by
  have hle : r.start.row.toNat ≤ r.stop.row.toNat := UInt32.le_iff_toNat_le.1 r.row_le
  simp only [rows, List.mem_map, List.mem_range]
  constructor
  · rintro ⟨i, hi, rfl⟩
    rw [toNat_rowAt hi]
    unfold rowCount at hi
    omega
  · rintro ⟨hlo, hhi⟩
    have hi : row.toNat - r.start.row.toNat < r.rowCount := by
      unfold rowCount
      omega
    refine ⟨_, hi, UInt32.toNat_inj.1 ?_⟩
    rw [toNat_rowAt hi]
    omega

theorem contains_cellAt (h : i < r.size) : r.contains (r.cellAt i) = true := by
  have hcol : 0 < r.colCount := r.one_le_colCount
  have hi : i / r.colCount < r.rowCount := (Nat.div_lt_iff_lt_mul hcol).2 h
  have hj : i % r.colCount < r.colCount := Nat.mod_lt i hcol
  have hrow : r.start.row.toNat ≤ r.stop.row.toNat := UInt32.le_iff_toNat_le.1 r.row_le
  have hcol : r.start.col.toNat ≤ r.stop.col.toNat := UInt32.le_iff_toNat_le.1 r.col_le
  rw [contains_iff, cellAt, toNat_rowAt hi, toNat_colAt hj]
  generalize i / r.colCount = x at hi
  generalize i % r.colCount = y at hj
  unfold rowCount at hi
  unfold colCount at hj
  omega

/-- Where a cell of the range stands in the list of its cells. -/
def indexOf (r : Range) (c : Cell) : Nat :=
  (c.row.toNat - r.start.row.toNat) * r.colCount + (c.col.toNat - r.start.col.toNat)

theorem offsets_lt (h : r.contains c = true) :
    c.row.toNat - r.start.row.toNat < r.rowCount ∧ c.col.toNat - r.start.col.toNat < r.colCount := by
  obtain ⟨hrow, hcol⟩ := contains_iff.1 h
  unfold rowCount colCount
  omega

theorem indexOf_lt (h : r.contains c = true) : r.indexOf c < r.size := by
  obtain ⟨hi, hj⟩ := offsets_lt h
  calc r.indexOf c < (c.row.toNat - r.start.row.toNat) * r.colCount + r.colCount :=
        Nat.add_lt_add_left hj _
    _ = (c.row.toNat - r.start.row.toNat + 1) * r.colCount := (Nat.succ_mul _ _).symm
    _ ≤ r.size := Nat.mul_le_mul_right _ hi

theorem cellAt_indexOf (h : r.contains c = true) : r.cellAt (r.indexOf c) = c := by
  obtain ⟨hrow, hcol⟩ := contains_iff.1 h
  obtain ⟨hi, hj⟩ := offsets_lt h
  rw [indexOf, cellAt_eq _ hj, Cell.eq_iff_toNat, toNat_rowAt hi, toNat_colAt hj]
  omega

theorem mem_cells : c ∈ r.cells ↔ r.contains c = true := by
  simp only [cells, List.mem_map, List.mem_range]
  constructor
  · rintro ⟨i, hi, rfl⟩
    exact contains_cellAt hi
  · intro h
    exact ⟨r.indexOf c, indexOf_lt h, cellAt_indexOf h⟩

@[simp] theorem mem_cells_single {d : Cell} : d ∈ (single c).cells ↔ d = c := by
  rw [mem_cells, contains_iff, Cell.eq_iff_toNat]
  simp only [single]
  omega

section Blocks

variable {top bottom : Range}

/-- The range is a block of rows on top of another one. -/
structure Stacked (r top bottom : Range) : Prop where
  start : top.start = r.start
  stop : bottom.stop = r.stop
  left : bottom.start.col = r.start.col
  right : top.stop.col = r.stop.col
  next : bottom.start.row.toNat = top.stop.row.toNat + 1

theorem Stacked.colCount_top (h : r.Stacked top bottom) : top.colCount = r.colCount := by
  rw [colCount, colCount, h.start, h.right]

theorem Stacked.colCount_bottom (h : r.Stacked top bottom) : bottom.colCount = r.colCount := by
  rw [colCount, colCount, h.left, h.stop]

theorem Stacked.rowCount_eq (h : r.Stacked top bottom) :
    r.rowCount = top.rowCount + bottom.rowCount := by
  have hrows := r.rowCount_eq
  have htop := top.rowCount_eq
  have hbottom := bottom.rowCount_eq
  rw [h.start] at htop
  rw [h.stop, h.next] at hbottom
  omega

theorem Stacked.size_eq (h : r.Stacked top bottom) : r.size = top.size + bottom.size := by
  rw [size, size, size, h.rowCount_eq, h.colCount_top, h.colCount_bottom, Nat.add_mul]

theorem Stacked.cellAt_top (h : r.Stacked top bottom) (i : Nat) : r.cellAt i = top.cellAt i := by
  rw [cellAt, cellAt, h.colCount_top, rowAt, rowAt, colAt, colAt, h.start]

theorem Stacked.cellAt_bottom (h : r.Stacked top bottom) (i : Nat) :
    r.cellAt (top.size + i) = bottom.cellAt i := by
  have hdiv : (top.size + i) / r.colCount = top.rowCount + i / r.colCount := by
    rw [size, h.colCount_top, Nat.mul_comm, Nat.mul_add_div r.one_le_colCount]
  have hmod : (top.size + i) % r.colCount = i % r.colCount := by
    rw [size, h.colCount_top, Nat.mul_comm, Nat.mul_add_mod]
  have hrow (q : Nat) : r.rowAt (top.rowCount + q) = bottom.rowAt q := by
    have htop := top.rowCount_eq
    rw [h.start] at htop
    rw [rowAt, rowAt, ← Nat.add_assoc, htop, h.next]
  have hcol (s : Nat) : r.colAt s = bottom.colAt s := by
    rw [colAt, colAt, h.left]
  rw [cellAt, cellAt, h.colCount_bottom, hdiv, hmod, hrow, hcol]

/-- The cells of the upper block come first. -/
theorem Stacked.cells_eq (h : r.Stacked top bottom) : r.cells = top.cells ++ bottom.cells := by
  rw [cells, h.size_eq, List.range_add, List.map_append, List.map_map]
  congr 1
  · exact List.map_congr_left fun i _ => h.cellAt_top i
  · exact List.map_congr_left fun i _ => h.cellAt_bottom i

theorem Stacked.cellCount_top_le (h : r.Stacked top bottom) : top.cellCount ≤ r.cellCount := by
  have hsize := h.size_eq
  simp only [cellCount]
  omega

theorem Stacked.cellCount_bottom_le (h : r.Stacked top bottom) :
    bottom.cellCount ≤ r.cellCount := by
  have hsize := h.size_eq
  simp only [cellCount]
  omega

end Blocks

theorem single_cellCount (c : Cell) : (single c).cellCount = 1 := by
  simp [cellCount, size, rowCount, colCount, single, countLimit, UInt64.size]

end Range

end Spreadsheet
