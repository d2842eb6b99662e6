import Spreadsheet.Proofs.Grid
import Spreadsheet.Proofs.Library.Lookup

/-!
The column that a lookup goes to. First column and index are added as words before one is taken
off, so that the sum is no word exactly for the last column of the grid. The subtraction brings it
back, unless the table is as wide as the grid: then the index is no word either, and the column
before the last is read in its place.
-/
namespace Spreadsheet

namespace Number

variable {x : Float} {i n : Nat}

/-- The whole part of a float as a word, held at the largest word. -/
def toWord (x : Float) : UInt32 := (truncClamped 0 (UInt32.size - 1) x).toNat.toUInt32

theorem exists_toWord (hn : 0 < n) (hle : n ≤ UInt32.size) (hx : Binary.ofFloat x ≠ .nan)
    (hone : ¬x < 1) (hcount : ¬Float.ofNat n < x) :
    ∃ i : Nat, truncInt (Binary.ofFloat x) = i ∧ 1 ≤ i ∧ i ≤ n ∧
      (toWord x).toNat = min i (UInt32.size - 1) := by
  obtain ⟨i, hwhole, hi, hin, hclamped⟩ := exists_truncInt_between hn hle hx hone hcount
  have hsize : (UInt32.size : Int) = 4294967296 := rfl
  have hsize' : UInt32.size = 4294967296 := rfl
  have hnat : (truncClamped 0 (UInt32.size - 1) x).toNat = min i (UInt32.size - 1) := by omega
  refine ⟨i, hwhole, hi, hin, ?_⟩
  rw [toWord, hnat]
  exact UInt32.toNat_ofNat_of_lt' (by omega)

end Number

namespace LibraryFunction

variable {x : Context} {eval : Text → Query Value} {column : Argument} {r : Range} {index : Float}
  {first : UInt32} {p p' : Progress} {i : Nat}

/-- The index is a word, and so is its sum with the first column. -/
structure Fits (first : UInt32) (index : Float) : Prop where
  word : ((Number.toWord index).toNat : Int) = Number.truncInt (Number.Binary.ofFloat index)
  sum : first.toNat + (Number.toWord index).toNat < UInt32.size

theorem ne_nan_of_columnIndex
    (h : x.answer (columnIndex eval column) p = (.ok (.ok index), p')) :
    Number.Binary.ofFloat index ≠ .nan := by
  obtain ⟨v, p₁, -, h⟩ := Query.exists_of_run_bind h
  split at h
  · cases h
  · split at h
    · rename_i y hy
      cases h
      refine Number.trunc_ne_nan fun hnan => ?_
      obtain ⟨s, m, e, hfinite⟩ := Number.Binary.exists_finite (isFinite_of_number? hy)
      rw [hfinite] at hnan
      cases hnan
    · cases h

theorem fits_iff (hwhole : Number.truncInt (Number.Binary.ofFloat index) = i)
    (hword : (Number.toWord index).toNat = Min.min i (UInt32.size - 1)) :
    Fits first index ↔ first.toNat + i < UInt32.size := by
  have hsize : UInt32.size = 4294967296 := rfl
  constructor
  · rintro ⟨hindex, hsum⟩
    omega
  · intro h
    exact ⟨by omega, by omega⟩

/-- The column comes out right unless the index is one more than the largest word. -/
theorem toNat_resultColumn_eq_iff (hi : 1 ≤ i) (hlast : first.toNat + i ≤ UInt32.size)
    (hword : (Number.toWord index).toNat = Min.min i (UInt32.size - 1)) :
    (resultColumn first (Number.toWord index)).toNat = first.toNat + i - 1 ↔ i < UInt32.size := by
  have hsize : UInt32.size = 4294967296 := rfl
  have hnat : Number.toWord index = (Min.min i (UInt32.size - 1)).toUInt32 := by
    rw [← hword, Nat.toUInt32_eq, UInt32.ofNat_toNat]
  rw [hnat, toNat_resultColumn (by omega) (by omega) (by omega)]
  omega

/-- An index that a lookup accepts is one of the columns of the table. Index and sum are words if and
only if the column is not the last of the grid, and the lookup goes to the column if and only if the
index is a word. -/
theorem fits_iff_of_accepted (hindex : x.answer (columnIndex eval column) p = (.ok (.ok index), p'))
    (hone : ¬index < 1) (hwidth : ¬Float.ofNat r.colCount < index) :
    ∃ i : Nat, Number.truncInt (Number.Binary.ofFloat index) = i ∧ 1 ≤ i ∧
      r.start.col.toNat + i - 1 ≤ r.stop.col.toNat ∧
      (Fits r.start.col index ↔ r.start.col.toNat + i - 1 < UInt32.size - 1) ∧
      ((resultColumn r.start.col (Number.toWord index)).toNat = r.start.col.toNat + i - 1 ↔
        i < UInt32.size) ∧
      ∀ o needle flag, i < UInt32.size → lookupIn o eval needle r index flag =
        matchMode o eval flag >>= fun mode =>
          firstMatch mode needle r.start.col (r.start.col.toNat + i - 1).toUInt32 r.rows := by
  have hcols := r.colCount_eq
  have hstop := r.stop.col.toNat_lt
  have hsize : UInt32.size = 4294967296 := rfl
  obtain ⟨i, hwhole, hi, hmost, hword⟩ := Number.exists_toWord r.one_le_colCount (by omega)
    (ne_nan_of_columnIndex hindex) hone hwidth
  have hlast : r.start.col.toNat + i ≤ UInt32.size := by omega
  have hcolumn := toNat_resultColumn_eq_iff hi hlast hword
  refine ⟨i, hwhole, hi, by omega, ?_, hcolumn, fun o needle flag hlt => ?_⟩
  · rw [fits_iff hwhole hword]
    omega
  · rw [← hcolumn.2 hlt, Nat.toUInt32_eq, UInt32.ofNat_toNat]
    rfl

section Wide

/-- The table of the whole first row. -/
def widest : Range := .ofCorners ⟨0, 0⟩ ⟨0, 4294967295⟩

/-- A grid with a number in the last column of its first row. -/
def wide : Context where
  grid := Grid.empty.set ⟨0, 4294967295⟩ (.number 7)
  formulas := .empty
  circular := ∅
  options := { Options.standard with maxRangeCells := 4294967296 }

theorem get_wide (c : Cell) :
    wide.grid.get c = if c = ⟨0, 4294967295⟩ then .number 7 else .empty := by
  rw [show wide.grid = Grid.empty.set ⟨0, 4294967295⟩ (.number 7) from rfl, Grid.get_set,
    Grid.get_empty]
  simp only [eq_comm]

theorem tableKeys_wide : tableKeys wide widest .start = [.empty] := by
  have hget : wide.grid.get ⟨0, 0⟩ = .empty := get_wide _
  change [Value.ofContent (wide.grid.get ⟨0, 0⟩)] = _
  rw [hget]
  rfl

theorem answer_columnIndex_wide : wide.answer (columnIndex (Formula.value wide.options)
    (.read "4294967296".toList)) .start = (.ok (.ok 4294967296), .start) := by
  have htrunc : Number.trunc 4294967296 = 4294967296 := by decide +kernel
  rw [answer_columnIndex (w := .number 4294967296) rfl rfl, htrunc]

theorem accepted_widest :
    ¬(4294967296 : Float) < 1 ∧ ¬Float.ofNat widest.colCount < 4294967296 := by
  decide +kernel

/-- Asked for the last column of the widest table, a lookup answers with what is in the column before
it. -/
theorem answer_lookupOf_wide : (wide.answer (lookupOf wide.options (Formula.value wide.options)
    (.read []) (.read "A1:MWLQKWV1".toList) (.read "4294967296".toList) none) .start).1 =
      .ok .empty := by
  have hneedle : wide.answer ((Argument.read []).value (Formula.value wide.options)) .start =
      (.ok .empty, .start) := rfl
  have htable : (Argument.read "A1:MWLQKWV1".toList).kind = .range widest := rfl
  have hflag : wide.answer ((none : Option Argument).mapM (·.value (Formula.value wide.options)))
      .start = (.ok none, .start) := rfl
  have hfind : [Value.empty].findIdx? ((MatchMode.ofFlag wide.options none).accepts .empty) =
      some 0 := rfl
  have hrow : widest.rows[0]? = some 0 := rfl
  have hcolumn : resultColumn widest.start.col (Number.truncClamped 0 (UInt32.size - 1)
      4294967296).toNat.toUInt32 = 4294967294 := by
    decide +kernel
  have hget : wide.grid.get ⟨0, 4294967294⟩ = .empty := get_wide _
  rw [answer_lookupOf_of_accepted hneedle rfl htable (by decide) answer_columnIndex_wide
    accepted_widest.1 accepted_widest.2 hflag, tableKeys_wide, hfind, Option.bind_some, hrow,
    Option.elim_some, hcolumn, hget]
  rfl

theorem fits_iff_of_accepted_widest :
    wide.grid.get widest.stop = .number 7 ∧ ¬Fits widest.start.col 4294967296 ∧
      (wide.answer (lookupOf wide.options (Formula.value wide.options) (.read [])
        (.read "A1:MWLQKWV1".toList) (.read "4294967296".toList) none) .start).1 = .ok .empty := by
  obtain ⟨i, hwhole, -, -, hfits, -⟩ :=
    fits_iff_of_accepted answer_columnIndex_wide accepted_widest.1 accepted_widest.2
  have hi : (i : Int) = 4294967296 := by
    rw [← hwhole]
    decide +kernel
  refine ⟨get_wide _, ?_, answer_lookupOf_wide⟩
  have hsize : UInt32.size = 4294967296 := rfl
  rw [hfits]
  change ¬0 + i - 1 < _
  omega

end Wide

end LibraryFunction

end Spreadsheet
