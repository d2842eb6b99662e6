import Spreadsheet.Proofs.Number.Digits
import Spreadsheet.SheetError

/-!
The texts that are read as the key of a cell: two coordinates with a dash between them, each of them
digits behind at most one plus sign. Main statement: nothing else is read, and a cell is read off its
own key, so that no two cells have the same key.
-/
namespace Spreadsheet.Cell

variable {t : Text} {n : UInt32} {c : Cell}

/-- The text is one or more digits with the number as their value, behind at most one plus sign. -/
def IsCoordinate (t : Text) (n : UInt32) : Prop :=
  ∃ sign digits, t = sign ++ digits ∧ (sign = [] ∨ sign = ['+']) ∧ digits ≠ [] ∧
    (∀ c ∈ digits, c.isDigit = true) ∧
      Nat.ofDigits 10 (digits.reverse.map Number.digitValue) = n.toNat

theorem toUInt32_eq_iff {k : Nat} (h : k < UInt32.size) : k.toUInt32 = n ↔ k = n.toNat := by
  rw [← UInt32.toNat_inj, UInt32.toNat_ofNat_of_lt' h]

/-- Behind the sign a coordinate is read as a number that fits. -/
theorem readDigits?_eq_some_iff :
    ((Number.readNat? t).bind fun k => if k < UInt32.size then some k.toUInt32 else none) = some n ↔
      t ≠ [] ∧ (∀ c ∈ t, c.isDigit = true) ∧
        Nat.ofDigits 10 (t.reverse.map Number.digitValue) = n.toNat := by
  simp only [Option.bind_eq_some_iff, Number.readNat?_eq_some_iff, Option.ite_none_right_eq_some,
    Option.some.injEq, ← Number.digitsValue_eq_ofDigits]
  constructor
  · rintro ⟨k, ⟨hne, hdigits, rfl⟩, hlt, hn⟩
    exact ⟨hne, hdigits, (toUInt32_eq_iff hlt).1 hn⟩
  · rintro ⟨hne, hdigits, hvalue⟩
    have hlt : Number.digitsValue t < UInt32.size := by
      rw [hvalue]
      exact n.toNat_lt
    exact ⟨_, ⟨hne, hdigits, rfl⟩, hlt, (toUInt32_eq_iff hlt).2 hvalue⟩

theorem readCoordinate?_eq_some_iff : readCoordinate? t = some n ↔ IsCoordinate t n := by
  unfold readCoordinate?
  constructor
  · intro h
    split at h
    · exact ⟨['+'], _, rfl, .inr rfl, readDigits?_eq_some_iff.1 h⟩
    · exact ⟨[], _, rfl, .inl rfl, readDigits?_eq_some_iff.1 h⟩
  · rintro ⟨sign, digits, rfl, rfl | rfl, h⟩
    · split
      · rename_i r hr
        rw [List.nil_append] at hr
        exact absurd (h.2.1 '+' (by simp [hr])) (by decide)
      · exact readDigits?_eq_some_iff.2 h
    · exact readDigits?_eq_some_iff.2 h

theorem IsCoordinate.dash_not_mem (h : IsCoordinate t n) : '-' ∉ t := by
  obtain ⟨sign, digits, rfl, hsign, -, hdigits, -⟩ := h
  rw [List.mem_append, not_or]
  constructor
  · rcases hsign with rfl | rfl <;> decide
  · exact fun hdash => absurd (hdigits _ hdash) (by decide)

theorem isCoordinate_natText (n : UInt32) : IsCoordinate (Number.natText n.toNat) n := by
  refine ⟨[], Number.natText n.toNat, rfl, .inl rfl, Number.natText_ne_nil _,
    fun _ => Number.isDigit_of_mem_natText, ?_⟩
  rw [← Number.digitsValue_eq_ofDigits, Number.digitsValue_natText]

theorem readKey?_eq_some_iff : readKey? t = some c ↔ ∃ row col,
    t = row ++ '-' :: col ∧ IsCoordinate row c.row ∧ IsCoordinate col c.col := by
  simp only [readKey?, Option.bind_eq_bind, Option.bind_eq_some_iff, Option.pure_def,
    Option.some.injEq, readCoordinate?_eq_some_iff, Prod.exists, Text.cutAt?_eq_some_iff]
  constructor
  · rintro ⟨row, col, ⟨rfl, -⟩, m, hm, n, hn, rfl⟩
    exact ⟨row, col, rfl, hm, hn⟩
  · rintro ⟨row, col, rfl, hrow, hcol⟩
    exact ⟨row, col, ⟨rfl, hrow.dash_not_mem⟩, _, hrow, _, hcol, rfl⟩

theorem parseKey_eq_ok_iff {s : String} : parseKey s = .ok c ↔ readKey? s.toList = some c := by
  unfold parseKey
  split <;> simp_all

theorem parseKey_key (c : Cell) : parseKey c.key = .ok c := by
  rw [parseKey_eq_ok_iff, key, String.toList_ofList, readKey?_eq_some_iff]
  exact ⟨_, _, rfl, isCoordinate_natText c.row, isCoordinate_natText c.col⟩

/-- A text is read as the key of a cell exactly if it is the row and the column of the cell with its first
dash between them, each as digits behind at most one plus sign, with any zeros in front; every other
text is refused by name. A cell is read off its own key, and cells with one key are one cell. -/
theorem parseKey_eq_ok_iff_coordinates (s : String) (c : Cell) :
    (parseKey s = .ok c ↔ ∃ row col, s.toList = row ++ '-' :: col ∧ '-' ∉ row ∧
        IsCoordinate row c.row ∧ IsCoordinate col c.col) ∧
      ((∃ other, parseKey s = .ok other) ∨ parseKey s = .error (.key s)) ∧
      parseKey c.key = .ok c ∧ Function.Injective key := by
  refine ⟨?_, ?_, parseKey_key c, fun a b hab => ?_⟩
  · rw [parseKey_eq_ok_iff, readKey?_eq_some_iff]
    constructor
    · rintro ⟨row, col, hs, hrow, hcol⟩
      exact ⟨row, col, hs, hrow.dash_not_mem, hrow, hcol⟩
    · rintro ⟨row, col, hs, -, hrow, hcol⟩
      exact ⟨row, col, hs, hrow, hcol⟩
  · unfold parseKey
    split
    · exact .inl ⟨_, rfl⟩
    · exact .inr rfl
  · have hread := parseKey_key a
    rw [hab, parseKey_key b] at hread
    exact (Except.ok.inj hread).symm

example : parseKey "+007-12" = .ok ⟨7, 12⟩ := rfl

end Spreadsheet.Cell
