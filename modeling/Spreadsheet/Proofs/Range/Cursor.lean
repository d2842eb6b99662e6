import Spreadsheet.Proofs.Range

/-!
The way of a cursor through a range. It comes to the cells row by row, to each one once, and ends
behind the last one, also in the last row and the last column that there are. The number of cells
is what is reported as their count, but for the range of all cells, which has one more than can be
reported.
-/
namespace Spreadsheet.Range

variable {r : Range} {k k' : Cursor} {c d : Cell} {q s i j : Nat}

section Steps

/-- The cursor stands some rows and columns behind the first cell. -/
structure Cursor.At (r : Range) (k : Cursor) (q s : Nat) : Prop where
  row : k.row.toNat = r.start.row.toNat + q
  col : k.col.toNat = r.start.col.toNat + s

theorem at_cursor (r : Range) : Cursor.At r r.cursor 0 0 where
  row := UInt32.toNat_toUInt64 _
  col := UInt32.toNat_toUInt64 _

theorem next?_of_rowCount_le (hk : Cursor.At r k q s) (hq : r.rowCount ≤ q) : r.next? k = none := by
  have hrows := r.rowCount_eq
  have hlt : r.stop.row.toUInt64 < k.row := by
    rw [UInt64.lt_iff_toNat_lt, UInt32.toNat_toUInt64, hk.row]
    omega
  rw [next?, if_pos hlt]

/-- A step gives the cell at the cursor and goes to the next column, or to the next row where the
columns end. No count of rows or columns overflows. -/
theorem exists_next? (hk : Cursor.At r k q s) (hq : q < r.rowCount) (hs : s < r.colCount) :
    ∃ k', r.next? k = some (⟨r.rowAt q, r.colAt s⟩, k') ∧
      if s + 1 < r.colCount then Cursor.At r k' q (s + 1) else Cursor.At r k' (q + 1) 0 := by
  have hrows := r.rowCount_eq
  have hcols := r.colCount_eq
  have hstop := r.stop.row.toNat_lt
  have hstop' := r.stop.col.toNat_lt
  have hin : ¬r.stop.row.toUInt64 < k.row := by
    rw [UInt64.lt_iff_toNat_lt, UInt32.toNat_toUInt64, hk.row]
    omega
  have hcell : (⟨k.row.toUInt32, k.col.toUInt32⟩ : Cell) = ⟨r.rowAt q, r.colAt s⟩ := by
    rw [Cell.eq_iff_toNat, toNat_rowAt hq, toNat_colAt hs, UInt64.toNat_toUInt32,
      UInt64.toNat_toUInt32, hk.row, hk.col]
    omega
  have hcol : (k.col + 1).toNat = r.start.col.toNat + (s + 1) := by
    rw [UInt64.toNat_add, hk.col]
    have hone : (1 : UInt64).toNat = 1 := rfl
    omega
  have hrow : (k.row + 1).toNat = r.start.row.toNat + (q + 1) := by
    rw [UInt64.toNat_add, hk.row]
    have hone : (1 : UInt64).toNat = 1 := rfl
    omega
  have hends : r.stop.col.toUInt64 < k.col + 1 ↔ ¬s + 1 < r.colCount := by
    rw [UInt64.lt_iff_toNat_lt, UInt32.toNat_toUInt64, hcol]
    omega
  rw [next?, if_neg hin, hcell]
  refine ⟨_, rfl, ?_⟩
  by_cases hnext : s + 1 < r.colCount
  · rw [if_pos hnext, if_neg fun h => hends.1 h hnext]
    exact ⟨hk.row, hcol⟩
  · rw [if_neg hnext, if_pos (hends.2 hnext)]
    exact ⟨hrow, UInt32.toNat_toUInt64 _⟩

/-- From a cell on, the cursor comes to the cells that are listed from there on. -/
theorem visit_eq (hk : Cursor.At r k q s) (hs : s < r.colCount) (steps : Nat) :
    r.visit steps k = (r.cells.drop (q * r.colCount + s)).take steps := by
  induction steps generalizing k q s with
  | zero => rfl
  | succ steps ih =>
    by_cases hq : q < r.rowCount
    · obtain ⟨k', hnext, hk'⟩ := exists_next? hk hq hs
      have hlt : q * r.colCount + s < r.cells.length := by
        calc q * r.colCount + s < q * r.colCount + r.colCount := Nat.add_lt_add_left hs _
          _ = (q + 1) * r.colCount := (Nat.succ_mul _ _).symm
          _ ≤ r.rowCount * r.colCount := Nat.mul_le_mul_right _ hq
          _ = r.cells.length := r.length_cells.symm
      have hcell : r.cells[q * r.colCount + s] = ⟨r.rowAt q, r.colAt s⟩ := by
        simp only [cells, List.getElem_map, List.getElem_range, cellAt_eq q hs]
      have hrest : r.visit steps k' = (r.cells.drop (q * r.colCount + s + 1)).take steps := by
        split at hk'
        · rename_i hcol
          exact ih hk' hcol
        · rename_i hcol
          have hlast : (q + 1) * r.colCount + 0 = q * r.colCount + s + 1 := by
            rw [Nat.succ_mul]
            omega
          rw [ih hk' r.one_le_colCount, hlast]
      rw [visit, hnext, List.drop_eq_getElem_cons hlt, hcell, List.take_succ_cons, ← hrest]
    · have hend : r.cells.length ≤ q * r.colCount + s := by
        calc r.cells.length = r.rowCount * r.colCount := r.length_cells
          _ ≤ q * r.colCount := Nat.mul_le_mul_right _ (Nat.le_of_not_lt hq)
          _ ≤ q * r.colCount + s := Nat.le_add_right _ _
      rw [visit, next?_of_rowCount_le hk (Nat.le_of_not_lt hq), List.drop_of_length_le hend,
        List.take_nil]

theorem firstCells_eq_take (r : Range) (limit : Nat) :
    r.firstCells limit = r.cells.take limit := by
  have hvisit := visit_eq r.at_cursor r.one_le_colCount limit
  rwa [Nat.zero_mul, Nat.zero_add, List.drop_zero] at hvisit

end Steps

section Order

/-- The first cell stands in a row above the second, or before it in the same row. -/
def Before (c d : Cell) : Prop := c.row < d.row ∨ c.row = d.row ∧ c.col < d.col

theorem before_iff : Before c d ↔ c.row.toNat < d.row.toNat ∨
    c.row.toNat = d.row.toNat ∧ c.col.toNat < d.col.toNat := by
  rw [Before, UInt32.lt_iff_toNat_lt, UInt32.lt_iff_toNat_lt, UInt32.toNat_inj]

theorem before_cellAt (hij : i < j) (hj : j < r.size) : Before (r.cellAt i) (r.cellAt j) := by
  have hpos : 0 < r.colCount := r.one_le_colCount
  have hrow : i / r.colCount ≤ j / r.colCount := Nat.div_le_div_right (Nat.le_of_lt hij)
  have hj' : j / r.colCount < r.rowCount := (Nat.div_lt_iff_lt_mul hpos).2 hj
  rw [before_iff, cellAt, cellAt, toNat_rowAt hj', toNat_rowAt (Nat.lt_of_le_of_lt hrow hj'),
    toNat_colAt (Nat.mod_lt i hpos), toNat_colAt (Nat.mod_lt j hpos)]
  rcases Nat.lt_or_eq_of_le hrow with hlt | heq
  · exact .inl (Nat.add_lt_add_left hlt _)
  · refine .inr ⟨by rw [heq], Nat.add_lt_add_left ?_ _⟩
    have hi := Nat.div_add_mod i r.colCount
    have hj := Nat.div_add_mod j r.colCount
    rw [heq] at hi
    omega

theorem pairwise_cells (r : Range) : r.cells.Pairwise Before := by
  rw [cells, List.pairwise_map]
  refine List.Pairwise.imp_of_mem ?_ List.pairwise_lt_range
  intro i j _ hj hij
  exact before_cellAt hij (List.mem_range.1 hj)

theorem nodup_cells (r : Range) : r.cells.Nodup := by
  refine r.pairwise_cells.imp fun h => ?_
  rintro rfl
  rw [before_iff] at h
  omega

end Order

section Count

/-- The range of all cells. -/
def whole : Range := ofCorners ⟨0, 0⟩ ⟨4294967295, 4294967295⟩

theorem rowCount_le (r : Range) : r.rowCount ≤ UInt32.size := by
  have hstop := r.stop.row.toNat_lt
  simp only [rowCount, UInt32.size]
  omega

theorem colCount_le (r : Range) : r.colCount ≤ UInt32.size := by
  have hstop := r.stop.col.toNat_lt
  simp only [colCount, UInt32.size]
  omega

/-- Only the range of all cells has every row and every column. -/
theorem eq_whole_of_counts (hrows : r.rowCount = UInt32.size) (hcols : r.colCount = UInt32.size) :
    r = whole := by
  have hstop := r.stop.row.toNat_lt
  have hstop' := r.stop.col.toNat_lt
  obtain ⟨⟨row, col⟩, ⟨row', col'⟩, _, _⟩ := r
  simp only [rowCount, colCount, UInt32.size] at hrows hcols hstop hstop'
  have hfirst : row = 0 := UInt32.toNat_inj.1 (by rw [UInt32.toNat_zero]; omega)
  have hfirst' : col = 0 := UInt32.toNat_inj.1 (by rw [UInt32.toNat_zero]; omega)
  have hmax : (4294967295 : UInt32).toNat = 4294967295 := rfl
  have hlast : row' = 4294967295 := UInt32.toNat_inj.1 (by omega)
  have hlast' : col' = 4294967295 := UInt32.toNat_inj.1 (by omega)
  subst hfirst hfirst' hlast hlast'
  rfl

theorem size_le_countLimit (h : r ≠ whole) : r.size ≤ countLimit := by
  have hsize : (UInt32.size - 1) * UInt32.size ≤ countLimit := by decide
  rcases Nat.lt_or_eq_of_le r.rowCount_le with hrows | hrows
  · exact Nat.le_trans (Nat.mul_le_mul (Nat.le_sub_one_of_lt hrows) r.colCount_le) hsize
  · have hcols : r.colCount < UInt32.size := by
      refine Nat.lt_of_le_of_ne r.colCount_le fun hcols => h (eq_whole_of_counts hrows hcols)
    calc r.size ≤ UInt32.size * (UInt32.size - 1) :=
          Nat.mul_le_mul r.rowCount_le (Nat.le_sub_one_of_lt hcols)
      _ = (UInt32.size - 1) * UInt32.size := Nat.mul_comm _ _
      _ ≤ countLimit := hsize

theorem size_whole : whole.size = countLimit + 1 := by decide +kernel

theorem cellCount_eq (r : Range) : r.cellCount = if r = whole then countLimit else r.size := by
  unfold cellCount
  split
  · rename_i h
    rw [h, size_whole]
    omega
  · rename_i h
    exact Nat.min_eq_left (size_le_countLimit h)

/-- A limit is exceeded by the reported count exactly if it is by the cells. -/
theorem lt_cellCount_iff {limit : Nat} (h : limit < countLimit) :
    limit < r.cellCount ↔ limit < r.cells.length := by
  rw [cellCount, r.length_cells, Nat.lt_min]
  exact and_iff_left h

end Count

/-- A range has the cells between its corners, row by row and each one once. A cursor comes to them
in this order and to no more, however many steps it is given. Their number is the reported count
but for the range of all cells, so that a limit below the largest count is exceeded by the one
exactly if it is by the other. -/
theorem cells_ofCorners (a b : Cell) :
    (∀ steps, (ofCorners a b).firstCells steps = (ofCorners a b).cells.take steps) ∧
      (ofCorners a b).cells.Pairwise Before ∧
      (∀ c, c ∈ (ofCorners a b).cells ↔ (ofCorners a b).contains c = true) ∧
      (ofCorners a b).cells.length = (ofCorners a b).rowCount * (ofCorners a b).colCount ∧
      ((ofCorners a b).cellCount = if ofCorners a b = whole then UInt64.size - 1
        else (ofCorners a b).rowCount * (ofCorners a b).colCount) ∧
      ∀ limit < UInt64.size - 1,
        limit < (ofCorners a b).cellCount ↔ limit < (ofCorners a b).cells.length :=
  ⟨firstCells_eq_take _, pairwise_cells _, fun _ => mem_cells, length_cells _, cellCount_eq _,
    fun _ => lt_cellCount_iff⟩

/-- In the corner of the grid the cursor ends with the last cell of all. -/
theorem cells_ofCorners_last : 3 < UInt64.size - 1 ∧
    (ofCorners ⟨4294967295, 4294967294⟩ ⟨4294967294, 4294967295⟩).firstCells 9 =
      [⟨4294967294, 4294967294⟩, ⟨4294967294, 4294967295⟩,
        ⟨4294967295, 4294967294⟩, ⟨4294967295, 4294967295⟩] ∧
    3 < (ofCorners ⟨4294967295, 4294967294⟩ ⟨4294967294, 4294967295⟩).cellCount ∧
    3 < (ofCorners ⟨4294967295, 4294967294⟩ ⟨4294967294, 4294967295⟩).cells.length := by
  obtain ⟨hwalk, -, -, -, -, hlimit⟩ :=
    cells_ofCorners ⟨4294967295, 4294967294⟩ ⟨4294967294, 4294967295⟩
  have hcount : 3 < (ofCorners ⟨4294967295, 4294967294⟩ ⟨4294967294, 4294967295⟩).cellCount := by
    decide +kernel
  have hsmall : 3 < UInt64.size - 1 := by decide
  exact ⟨hsmall, (hwalk 9).trans (by decide +kernel), hcount, (hlimit 3 hsmall).1 hcount⟩

end Spreadsheet.Range
