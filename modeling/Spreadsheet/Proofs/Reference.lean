import Mathlib.Tactic.Common
import Spreadsheet.Proofs.Range

/-!
References as text and under moves. Every column reads back from its name and every reference from
its text, with its anchors. A move shifts the components that are not anchored, unless one of them
leaves the grid, and keeps the anchors.
-/
namespace Spreadsheet

theorem Text.isUpper_of_isDigit {c : Char} (h : c.isDigit = true) : c.isUpper = false := by
  have h9 : c.val.toNat ≤ 57 :=
    UInt32.le_iff_toNat_le.1 (of_decide_eq_true (Bool.and_eq_true_iff.1 h).2)
  refine Bool.eq_false_iff.2 fun hupper => ?_
  have hA : 65 ≤ c.val.toNat :=
    UInt32.le_iff_toNat_le.1 (of_decide_eq_true hupper).1
  omega

namespace Cell

variable {c c' d : Cell} {rows cols : Int}

/-- The cell moved by a number of rows and columns is on the grid. -/
def StaysOn (rows cols : Int) (c : Cell) : Prop :=
  (0 ≤ c.row.toNat + rows ∧ c.row.toNat + rows < UInt32.size) ∧
    0 ≤ c.col.toNat + cols ∧ c.col.toNat + cols < UInt32.size

instance (rows cols : Int) (c : Cell) : Decidable (StaysOn rows cols c) :=
  inferInstanceAs (Decidable (_ ∧ _))

/-- The second cell is the first one moved by a number of rows and columns. -/
def MovesTo (rows cols : Int) (c d : Cell) : Prop :=
  (d.row.toNat : Int) = c.row.toNat + rows ∧ (d.col.toNat : Int) = c.col.toNat + cols

theorem offset?_eq_some_iff : c.offset? rows cols = some d ↔ MovesTo rows cols c d := by
  constructor
  · intro h
    obtain ⟨hin, hd⟩ := Option.ite_none_right_eq_some.1 h
    obtain rfl := Option.some.inj hd
    have hr : (c.row.toNat + rows).toNat.toUInt32.toNat = (c.row.toNat + rows).toNat :=
      UInt32.toNat_ofNat_of_lt' (by omega)
    have hc : (c.col.toNat + cols).toNat.toUInt32.toNat = (c.col.toNat + cols).toNat :=
      UInt32.toNat_ofNat_of_lt' (by omega)
    constructor <;> simp only [hr, hc] <;> omega
  · rintro ⟨hrow, hcol⟩
    have hr := d.row.toNat_lt
    have hc := d.col.toNat_lt
    unfold offset?
    rw [← hrow, ← hcol, if_pos]
    · simp
    · simp only [UInt32.size]
      omega

theorem offset?_eq_none_iff : c.offset? rows cols = none ↔ ¬StaysOn rows cols c := by
  unfold offset? StaysOn
  simp [and_assoc]

theorem StaysOn.exists_movesTo (h : StaysOn rows cols c) : ∃ d, MovesTo rows cols c d := by
  obtain ⟨d, hd⟩ := Option.ne_none_iff_exists'.1 fun hnone => offset?_eq_none_iff.1 hnone h
  exact ⟨d, offset?_eq_some_iff.1 hd⟩

theorem MovesTo.injective (h : MovesTo rows cols c d) (h' : MovesTo rows cols c' d) : c = c' := by
  obtain ⟨hrow, hcol⟩ := h
  obtain ⟨hrow', hcol'⟩ := h'
  rw [eq_iff_toNat]
  omega

end Cell

namespace Column

theorem toNat_letter {d : Nat} (h : d < 26) : (letter d).toNat = 'A'.toNat + d := by
  have hall : ∀ d < 26, (letter d).toNat = 'A'.toNat + d := by decide
  exact hall d h

theorem isUpper_letter {d : Nat} (h : d < 26) : (letter d).isUpper = true := by
  have hall : ∀ d < 26, (letter d).isUpper = true := by decide
  exact hall d h

theorem isUpper_of_mem_nameOf {n : Nat} {c : Char} (h : c ∈ nameOf n) : c.isUpper = true := by
  induction n using nameOf.induct with
  | case1 =>
    rw [nameOf] at h
    cases h
  | case2 n ih =>
    rw [nameOf, List.mem_append, List.mem_singleton] at h
    rcases h with h | rfl
    · exact ih h
    · exact isUpper_letter (Nat.mod_lt n (by decide))

theorem numberOf_nameOf (n : Nat) : numberOf (nameOf n) = n := by
  induction n using nameOf.induct with
  | case1 =>
    rw [nameOf]
    rfl
  | case2 n ih =>
    unfold numberOf at ih ⊢
    rw [nameOf, List.foldl_append, ih, List.foldl_cons, List.foldl_nil,
      toNat_letter (Nat.mod_lt n (by decide))]
    omega

theorem name_ne_nil (col : UInt32) : name col ≠ [] := by
  rw [name, nameOf]
  exact List.append_ne_nil_of_right_ne_nil _ (List.cons_ne_nil _ _)

theorem read?_name (col : UInt32) : read? (name col) = some col := by
  have hall : (name col).all Char.isUpper = true :=
    List.all_eq_true.2 fun c hc => isUpper_of_mem_nameOf hc
  have hnumber : numberOf (name col) = col.toNat + 1 := numberOf_nameOf _
  have hle : col.toNat + 1 ≤ UInt32.size := col.toNat_lt
  rw [read?, if_pos ⟨name_ne_nil col, hall, hnumber ▸ hle⟩, hnumber]
  simp

end Column

namespace Reference

variable {r r' : Reference} {t : Text}

theorem splitAnchor_anchor (anchored : Bool) (h : t.head? ≠ some '$') :
    splitAnchor (anchor anchored ++ t) = (anchored, t) := by
  cases anchored with
  | true => rfl
  | false =>
    rw [anchor, if_neg Bool.false_ne_true, List.nil_append]
    unfold splitAnchor
    split
    · simp at h
    · rfl

theorem readRow?_natText (row : UInt32) :
    readRow? (Number.natText (row.toNat + 1)) = some row := by
  have hle : row.toNat + 1 ≤ UInt32.size := row.toNat_lt
  rw [readRow?, Number.readNat?_natText, Option.bind_some, if_pos ⟨Nat.le_add_left _ _, hle⟩]
  simp

/-- The column letters and the row digits of a reference, as a text may spell them. -/
structure Spelled (letters digits : Text) : Prop where
  letters_ne_nil : letters ≠ []
  isUpper : ∀ c ∈ letters, c.isUpper = true
  digits_ne_nil : digits ≠ []
  isDigit : ∀ c ∈ digits, c.isDigit = true

namespace Spelled

variable {letters digits : Text}

theorem splitAnchor_col (h : Spelled letters digits) (anchored : Bool) :
    splitAnchor (anchor anchored ++ (letters ++ t)) = (anchored, letters ++ t) := by
  apply splitAnchor_anchor
  obtain ⟨c, letters, rfl⟩ := List.exists_cons_of_ne_nil h.letters_ne_nil
  intro hdollar
  obtain rfl := Option.some.inj hdollar
  exact absurd (h.isUpper '$' List.mem_cons_self) (by decide)

theorem splitAnchor_row (h : Spelled letters digits) (anchored : Bool) :
    splitAnchor (anchor anchored ++ (digits ++ t)) = (anchored, digits ++ t) := by
  apply splitAnchor_anchor
  obtain ⟨c, digits, rfl⟩ := List.exists_cons_of_ne_nil h.digits_ne_nil
  intro hdollar
  obtain rfl := Option.some.inj hdollar
  exact absurd (h.isDigit '$' List.mem_cons_self) (by decide)

theorem splitWhile_letters (h : Spelled letters digits) (anchored : Bool) :
    Text.splitWhile Char.isUpper (letters ++ (anchor anchored ++ (digits ++ t))) =
      (letters, anchor anchored ++ (digits ++ t)) := by
  apply Text.splitWhile_append_of_all h.isUpper
  cases anchored with
  | true =>
    intro c hc
    obtain rfl := Option.some.inj hc
    decide
  | false =>
    obtain ⟨d, digits, rfl⟩ := List.exists_cons_of_ne_nil h.digits_ne_nil
    intro c hc
    obtain rfl := Option.some.inj hc
    exact Text.isUpper_of_isDigit (h.isDigit d List.mem_cons_self)

end Spelled

theorem spelled (c : Cell) : Spelled (Column.name c.col) (Number.natText (c.row.toNat + 1)) where
  letters_ne_nil := Column.name_ne_nil c.col
  isUpper := fun _ => Column.isUpper_of_mem_nameOf
  digits_ne_nil := Number.natText_ne_nil _
  isDigit := fun _ => Number.isDigit_of_mem_natText

/-- Reading a text of the shape of a reference reads its letters and its digits. -/
theorem Spelled.read? {letters digits : Text} (h : Spelled letters digits) (col row : Bool) :
    Reference.read? (anchor col ++ letters ++ anchor row ++ digits) =
      (Column.read? letters).bind fun c => (readRow? digits).map fun r => ⟨⟨r, c⟩, row, col⟩ := by
  have htext : anchor col ++ letters ++ anchor row ++ digits =
      anchor col ++ (letters ++ (anchor row ++ (digits ++ []))) := by
    simp
  simp only [Reference.read?, htext, h.splitAnchor_col, h.splitWhile_letters, h.splitAnchor_row]
  rw [List.append_nil]

/-- Every reference reads back from its text. -/
theorem read?_text (r : Reference) : read? r.text = some r := by
  rw [text, (spelled r.cell).read?, Column.read?_name, readRow?_natText]
  rfl

/-- The second reference is the first one moved: anchored components stay, the others go along,
and the anchors are kept. -/
structure MovesTo (rows cols : Int) (r r' : Reference) : Prop where
  row : (r'.cell.row.toNat : Int) = r.cell.row.toNat + if r.anchoredRow then 0 else rows
  col : (r'.cell.col.toNat : Int) = r.cell.col.toNat + if r.anchoredCol then 0 else cols
  anchoredRow : r'.anchoredRow = r.anchoredRow
  anchoredCol : r'.anchoredCol = r.anchoredCol

theorem shift?_eq_some_iff {rows cols : Int} :
    r.shift? rows cols = some r' ↔ MovesTo rows cols r r' := by
  rw [shift?, Option.map_eq_some_iff]
  constructor
  · rintro ⟨c, hc, rfl⟩
    obtain ⟨hrow, hcol⟩ := Cell.offset?_eq_some_iff.1 hc
    exact ⟨hrow, hcol, rfl, rfl⟩
  · rintro ⟨hrow, hcol, hanchoredRow, hanchoredCol⟩
    refine ⟨r'.cell, Cell.offset?_eq_some_iff.2 ⟨hrow, hcol⟩, ?_⟩
    rw [← hanchoredRow, ← hanchoredCol]

theorem MovesTo.of_add {rows cols rows' cols' : Int} {r'' : Reference}
    (h : MovesTo rows cols r r') (h' : MovesTo (rows + rows') (cols + cols') r r'') :
    MovesTo rows' cols' r' r'' := by
  obtain ⟨hrow, hcol, hanchoredRow, hanchoredCol⟩ := h
  obtain ⟨hrow', hcol', hanchoredRow', hanchoredCol'⟩ := h'
  constructor
  · rw [hrow', hrow, hanchoredRow]
    split <;> omega
  · rw [hcol', hcol, hanchoredCol]
    split <;> omega
  · rw [hanchoredRow', hanchoredRow]
  · rw [hanchoredCol', hanchoredCol]

end Reference

end Spreadsheet
