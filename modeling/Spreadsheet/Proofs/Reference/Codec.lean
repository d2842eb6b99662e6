import Spreadsheet.Formula.Token
import Spreadsheet.Proofs.Number.Digits
import Spreadsheet.Proofs.Reference

/-!
The texts that are read as a column, a reference or a range. A column has exactly one name. A
reference has its own text and, besides, that text with zeros before the row number. A range has the
texts of any two opposite corners with a colon between them. Main statement: nothing else is read,
and what is written reads back, up to the last row and the last column.
-/
namespace Spreadsheet

variable {t s : Text} {c : Char}

namespace Column

variable {col : UInt32}

theorem toNat_of_isUpper (h : c.isUpper = true) : 'A'.toNat ≤ c.toNat ∧ c.toNat ≤ 'Z'.toNat := by
  have h := of_decide_eq_true h
  exact ⟨UInt32.le_iff_toNat_le.1 h.1, UInt32.le_iff_toNat_le.1 h.2⟩

theorem letter_of_isUpper (h : c.isUpper = true) :
    c.toNat - 'A'.toNat < 26 ∧ letter (c.toNat - 'A'.toNat) = c := by
  obtain ⟨hlo, hhi⟩ := toNat_of_isUpper h
  have hA : 'A'.toNat = 65 := rfl
  have hZ : 'Z'.toNat = 90 := rfl
  have hlt : c.toNat - 'A'.toNat < 26 := by omega
  refine ⟨hlt, Char.toNat_inj.1 ?_⟩
  rw [toNat_letter hlt]
  omega

theorem numberOf_concat (t : Text) (c : Char) :
    numberOf (t ++ [c]) = 26 * numberOf t + (c.toNat - 'A'.toNat) + 1 := by
  unfold numberOf
  rw [List.foldl_append]
  rfl

/-- A text of capitals is the name of its number: there is no letter for zero. -/
theorem nameOf_numberOf (h : ∀ c ∈ t, c.isUpper = true) : nameOf (numberOf t) = t := by
  induction t using List.reverseRecOn with
  | nil => exact nameOf.eq_1
  | append_singleton t c ih =>
    obtain ⟨hlt, hc⟩ := letter_of_isUpper (h c (by simp))
    rw [numberOf_concat, nameOf]
    generalize c.toNat - 'A'.toNat = d at hlt hc
    have hdiv : (26 * numberOf t + d) / 26 = numberOf t := by omega
    have hmod : (26 * numberOf t + d) % 26 = d := by omega
    rw [hdiv, hmod, hc, ih fun d hd => h d (by simp [hd])]

theorem numberOf_pos (h : t ≠ []) : 0 < numberOf t := by
  rw [← List.dropLast_concat_getLast h, numberOf_concat]
  exact Nat.succ_pos _

theorem read?_eq_some_iff : read? t = some col ↔ t = name col := by
  constructor
  · intro h
    obtain ⟨⟨hne, hall, hle⟩, hcol⟩ := Option.ite_none_right_eq_some.1 h
    obtain rfl := Option.some.inj hcol
    have hpos := numberOf_pos hne
    have htoNat : (numberOf t - 1).toUInt32.toNat = numberOf t - 1 :=
      UInt32.toNat_ofNat_of_lt' (by omega)
    rw [name, htoNat, Nat.sub_add_cancel hpos, nameOf_numberOf (List.all_eq_true.1 hall)]
  · rintro rfl
    exact read?_name col

end Column

namespace Reference

variable {r : Reference} {row : UInt32}

/-- A row number is read off its decimal form with any number of zeros in front. -/
theorem readRow?_eq_some_iff : readRow? t = some row ↔
    ∃ n, t = Number.zeros n ++ Number.natText (row.toNat + 1) := by
  constructor
  · intro h
    obtain ⟨n, hn, hrow⟩ := Option.bind_eq_some_iff.1 h
    obtain ⟨-, hall, rfl⟩ := Number.readNat?_eq_some_iff.1 hn
    obtain ⟨⟨hone, hle⟩, hrow⟩ := Option.ite_none_right_eq_some.1 hrow
    obtain rfl := Option.some.inj hrow
    have htoNat : (Number.digitsValue t - 1).toUInt32.toNat = Number.digitsValue t - 1 :=
      UInt32.toNat_ofNat_of_lt' (by omega)
    rw [htoNat, Nat.sub_add_cancel hone]
    exact Number.exists_zeros hall (by omega)
  · rintro ⟨n, rfl⟩
    have hread : Number.readNat? (Number.zeros n ++ Number.natText (row.toNat + 1)) =
        some (row.toNat + 1) := by
      refine Number.readNat?_eq_some_iff.2 ⟨?_, fun c hc => ?_, ?_⟩
      · exact List.append_ne_nil_of_right_ne_nil _ (Number.natText_ne_nil _)
      · rcases List.mem_append.1 hc with hc | hc
        · exact Number.isDigit_of_mem_zeros hc
        · exact Number.isDigit_of_mem_natText hc
      · rw [Number.digitsValue_zeros_append, Number.digitsValue_natText]
    have hle : row.toNat + 1 ≤ UInt32.size := row.toNat_lt
    rw [readRow?, hread, Option.bind_some, if_pos ⟨Nat.le_add_left _ _, hle⟩]
    simp

/-- The text is that of the reference, but for zeros before the row number. -/
def SpelledBy (r : Reference) (t : Text) : Prop :=
  ∃ n, t = anchor r.anchoredCol ++ Column.name r.cell.col ++ anchor r.anchoredRow ++
    (Number.zeros n ++ Number.natText (r.cell.row.toNat + 1))

theorem spelledBy_text (r : Reference) : r.SpelledBy r.text := ⟨0, rfl⟩

theorem spelled_zeros (c : Cell) (n : Nat) :
    Spelled (Column.name c.col) (Number.zeros n ++ Number.natText (c.row.toNat + 1)) where
  letters_ne_nil := Column.name_ne_nil c.col
  isUpper _ := Column.isUpper_of_mem_nameOf
  digits_ne_nil := List.append_ne_nil_of_right_ne_nil _ (Number.natText_ne_nil _)
  isDigit _ hc := (List.mem_append.1 hc).elim Number.isDigit_of_mem_zeros
    Number.isDigit_of_mem_natText

theorem read?_eq_some_iff : read? t = some r ↔ r.SpelledBy t := by
  constructor
  · intro h
    have hsplit : anchor (splitAnchor t).1 ++ (splitAnchor t).2 = t :=
      Formula.splitAnchor_append t
    simp only [read?] at h
    generalize splitAnchor t = p at h hsplit
    obtain ⟨anchoredCol, u⟩ := p
    have hletters := Text.splitWhile_append Char.isUpper u
    dsimp only at h hsplit
    generalize Text.splitWhile Char.isUpper u = p at h hletters
    obtain ⟨letters, v⟩ := p
    have hdigits : anchor (splitAnchor v).1 ++ (splitAnchor v).2 = v :=
      Formula.splitAnchor_append v
    dsimp only at h hletters
    generalize splitAnchor v = p at h hdigits
    obtain ⟨anchoredRow, digits⟩ := p
    obtain ⟨col, hcol, h⟩ := Option.bind_eq_some_iff.1 h
    obtain ⟨row, hrow, rfl⟩ := Option.map_eq_some_iff.1 h
    obtain ⟨n, hn⟩ := readRow?_eq_some_iff.1 hrow
    refine ⟨n, ?_⟩
    dsimp only at hdigits hn ⊢
    rw [← hsplit, ← hletters, ← hdigits, Column.read?_eq_some_iff.1 hcol, hn]
    simp only [List.append_assoc]
  · rintro ⟨n, rfl⟩
    rw [(spelled_zeros r.cell n).read?, Column.read?_name, readRow?_eq_some_iff.2 ⟨n, rfl⟩]
    rfl

theorem SpelledBy.colon_not_mem (h : r.SpelledBy t) : ':' ∉ t := by
  obtain ⟨n, rfl⟩ := h
  have hspelled := spelled_zeros r.cell n
  have hanchor (anchored : Bool) : ':' ∉ anchor anchored := by cases anchored <;> decide
  intro h
  rcases List.mem_append.1 h with h | h
  · rcases List.mem_append.1 h with h | h
    · rcases List.mem_append.1 h with h | h
      · exact hanchor _ h
      · exact absurd (hspelled.isUpper _ h) (by decide)
    · exact hanchor _ h
  · exact absurd (hspelled.isDigit _ h) (by decide)

end Reference

namespace Range

variable {area : Range} {a b : Cell}

/-- The cells are opposite corners of the range. -/
def HasCorners (area : Range) (a b : Cell) : Prop :=
  (a.row = area.start.row ∧ b.row = area.stop.row ∨ a.row = area.stop.row ∧ b.row = area.start.row) ∧
    (a.col = area.start.col ∧ b.col = area.stop.col ∨
      a.col = area.stop.col ∧ b.col = area.start.col)

theorem min_max_iff {x y lo hi : UInt32} (h : lo ≤ hi) :
    (min x y = lo ∧ max x y = hi) ↔ (x = lo ∧ y = hi ∨ x = hi ∧ y = lo) := by
  have hmin : min x y = if x ≤ y then x else y := rfl
  have hmax : max x y = if x ≤ y then y else x := rfl
  rw [hmin, hmax]
  grind

theorem ofCorners_eq_iff : ofCorners a b = area ↔ area.HasCorners a b := by
  obtain ⟨⟨startRow, startCol⟩, ⟨stopRow, stopCol⟩, hrow, hcol⟩ := area
  rw [ofCorners, HasCorners, ← min_max_iff hrow, ← min_max_iff hcol, Range.mk.injEq, Cell.mk.injEq,
    Cell.mk.injEq]
  tauto

/-- A range is read off two references, to any opposite corners of it, with a colon between them. -/
theorem read?_eq_some_iff : read? t = some area ↔ ∃ (a b : Reference) (u v : Text),
    a.SpelledBy u ∧ b.SpelledBy v ∧ t = u ++ ':' :: v ∧ area.HasCorners a.cell b.cell := by
  constructor
  · intro h
    obtain ⟨⟨u, v⟩, hcut, h⟩ := Option.bind_eq_some_iff.1 h
    obtain ⟨a, ha, h⟩ := Option.bind_eq_some_iff.1 h
    obtain ⟨b, hb, h⟩ := Option.bind_eq_some_iff.1 h
    refine ⟨a, b, u, v, Reference.read?_eq_some_iff.1 ha, Reference.read?_eq_some_iff.1 hb, ?_, ?_⟩
    · exact (Text.cutAt?_eq_some_iff.1 hcut).1
    · exact ofCorners_eq_iff.1 (Option.some.inj h)
  · rintro ⟨a, b, u, v, ha, hb, rfl, harea⟩
    have hcut : Text.cutAt? ':' (u ++ ':' :: v) = some (u, v) :=
      Text.cutAt?_eq_some_iff.2 ⟨rfl, ha.colon_not_mem⟩
    rw [read?, hcut]
    simp [Reference.read?_eq_some_iff.2 ha, Reference.read?_eq_some_iff.2 hb,
      ofCorners_eq_iff.2 harea]

theorem read?_text (area : Range) : read? area.text = some area := by
  refine read?_eq_some_iff.2 ⟨_, _, _, _, Reference.spelledBy_text _, Reference.spelledBy_text _, rfl,
    ?_⟩
  exact ⟨.inl ⟨rfl, rfl⟩, .inl ⟨rfl, rfl⟩⟩

/-- Reading undoes writing, for every reference and every range; and the texts that are read are
those of references, with any number of zeros before a row number, those of columns without any
other form, and two references with one colon between them for the range of which they are corners. -/
theorem reading_undoes_writing :
    (∀ r : Reference, Reference.read? r.text = some r) ∧
      (∀ t r, Reference.read? t = some r ↔ ∃ n, t =
        Reference.anchor r.anchoredCol ++ Column.name r.cell.col ++
          Reference.anchor r.anchoredRow ++
            (List.replicate n '0' ++ Number.natText (r.cell.row.toNat + 1))) ∧
      (∀ t col, Column.read? t = some col ↔ t = Column.name col) ∧
      (∀ t area, Range.read? t = some area ↔ ∃ (a b : Reference) (u v : Text),
        a.SpelledBy u ∧ b.SpelledBy v ∧ t = u ++ ':' :: v ∧ area.HasCorners a.cell b.cell) ∧
      (∀ a b, ∃ area : Range, area.HasCorners a b) ∧
      ∀ area : Range, Range.read? area.text = some area :=
  ⟨Reference.read?_text, fun _ _ => Reference.read?_eq_some_iff, fun _ _ => Column.read?_eq_some_iff,
    fun _ _ => read?_eq_some_iff, fun a b => ⟨ofCorners a b, ofCorners_eq_iff.1 rfl⟩, read?_text⟩

end Range

end Spreadsheet
