import Spreadsheet.Library.Call
import Spreadsheet.Proofs.Formula.Scan
import Spreadsheet.Proofs.Number.Between
import Spreadsheet.Proofs.Query
import Spreadsheet.Proofs.Range
import Spreadsheet.Proofs.Text.Search

/-!
What a library call reads. If all that the text of an argument mentions lies in a set of cells,
and so does all that formulas inside it read, then the call reads from that set only. A lookup is
the one that computes where it reads: the column it asks for lies in its table.
-/
namespace Spreadsheet

open Formula (MayRead)
open Text (Part)

variable {P : Cell → Prop} {eval : Text → Query Value} {s t : Text} {o : Options}

/-- All cells that the text mentions are in `P`, but for those of ranges too large to visit, and
its parts evaluate from `P`. -/
structure Reader (o : Options) (eval : Text → Query Value) (P : Cell → Prop) (t : Text) :
    Prop where
  reads : ∀ c, MayRead o.maxRangeCells t c → P c
  within : ∀ s, Part s t → (eval s).Within P

theorem Reader.of_part (ht : Reader o eval P t) (h : Part s t) : Reader o eval P s :=
  ⟨fun c hc => ht.reads c (hc.of_part h), fun u hu => ht.within u (hu.trans h)⟩

theorem Reader.self (ht : Reader o eval P t) : (eval t).Within P := ht.within t (.refl t)

/-- What the kind of an argument tells of its text. -/
def ArgumentKind.Tells (t : Text) : ArgumentKind → Prop
  | .empty => t = []
  | .range r => Range.read? t = some r
  | .reference r => Reference.read? t = some r
  | .literal s => Text.literal? t = some s
  | .number x => Number.parse? t = some x
  | .formula => True

namespace Argument

theorem tells_kindOf (t : Text) : (kindOf t).Tells t := by
  unfold kindOf
  split
  · assumption
  · split
    · assumption
    · split
      · assumption
      · split
        · assumption
        · split
          · assumption
          · trivial

theorem tells_of_read {k : ArgumentKind} (h : (read t).kind = k) : k.Tells (Text.trim t) := by
  rw [← h]
  exact tells_kindOf (Text.trim t)

/-- An argument whose text, cell or range lies in `P`. -/
structure Reads (o : Options) (eval : Text → Query Value) (P : Cell → Prop) (a : Argument) :
    Prop where
  text : Reader o eval P a.text
  range : ∀ r, a.kind = .range r → r.cellCount ≤ o.maxRangeCells → ∀ c ∈ r.cells, P c
  reference : ∀ r, a.kind = .reference r → P r.cell

theorem reads_read (ht : Reader o eval P t) : (read t).Reads o eval P where
  text := ht.of_part (Text.part_trim t)
  range r hr hlimit c hc := by
    have hrange : Range.read? (Text.trim t) = some r := tells_of_read hr
    have hreads := Formula.mayRead_of_range hrange hlimit hc
    exact ht.reads c (hreads.of_part (Text.part_trim t))
  reference r hr := by
    have href : Reference.read? (Text.trim t) = some r := tells_of_read hr
    exact ht.reads r.cell ((Formula.mayRead_of_reference href _).of_part (Text.part_trim t))

variable {a : Argument} {β : Type}

theorem Reads.value (h : a.Reads o eval P) : (a.value eval).Within P := by
  unfold Argument.value
  split
  · exact Query.within_done _
  · exact Query.within_fail _
  · rename_i r hr
    exact Query.within_computed (h.reference r hr) fun v => Query.within_done v
  · exact Query.within_done _
  · exact Query.within_done _
  · exact h.text.self.attempt.bind fun _ => Query.within_done _

theorem within_textOf (v : Value) : (textOf v).Within P := by
  cases v <;> trivial

theorem Reads.storedText (h : a.Reads o eval P) : (a.storedText eval).Within P := by
  unfold Argument.storedText
  split
  · exact Query.within_done _
  · exact Query.within_fail _
  · rename_i r hr
    exact Query.within_stored (h.reference r hr) fun v => Query.within_done _
  · exact Query.within_done _
  · exact Query.within_done _
  · exact h.value.bind within_textOf

theorem checkRange_of_le {r : Range} (h : r.cellCount ≤ o.maxRangeCells) :
    o.checkRange r = .ok () :=
  if_neg (Nat.not_lt.2 h)

theorem ensures_checkRange (o : Options) (r : Range) :
    (Query.ofExcept (o.checkRange r)).Ensures P fun _ => r.cellCount ≤ o.maxRangeCells := by
  refine Query.ensures_ofExcept fun _ h => ?_
  unfold Options.checkRange at h
  split at h
  · cases h
  · exact Nat.le_of_not_lt ‹_›

theorem Reads.foldValues (h : a.Reads o eval P) (f : β → Value → β) (b : β) :
    (a.foldValues o eval f b).Within P := by
  unfold Argument.foldValues
  split
  · rename_i r hr
    refine Query.Ensures.bind (ensures_checkRange o r) fun _ hlimit => ?_
    exact Query.within_foldComputed (h.range r hr hlimit) b
  · exact h.value.bind fun _ => Query.within_done _

theorem Reads.foldContents (h : a.Reads o eval P) (f : β → Content → β) (b : β) :
    (a.foldContents o eval f b).Within P := by
  unfold Argument.foldContents
  split
  · rename_i r hr
    refine Query.Ensures.bind (ensures_checkRange o r) fun _ hlimit => ?_
    exact Query.within_foldStored (h.range r hr hlimit) b
  · rename_i r hr
    exact Query.within_stored (h.reference r hr) fun v => Query.within_done _
  · exact Query.within_done _
  · exact h.storedText.bind fun _ => Query.within_done _

theorem Reads.numberValue (h : a.Reads o eval P) : (a.numberValue eval).Within P := by
  refine h.value.bind fun v => ?_
  split
  · exact Query.within_fail _
  · exact Query.within_done _
  · split
    · exact Query.within_done _
    · exact Query.within_fail _

end Argument

open Argument (Reads)

namespace Condition

/-- The sides of a comparison at top level stand on their own. -/
theorem part_of_split? {left right : Text} {op : Expression.Comparison}
    (h : split? t = some (left, op, right)) : Part left t ∧ Part right t := by
  have hsigns : ∀ part ∈ operators.map Prod.fst, part ≠ [] ∧ ∀ c ∈ part, Text.isSign c = true := by
    simp only [← List.all_eq_true]
    decide
  have hedges : ∀ part ∈ operators.map Prod.fst,
      ('"' ∉ part) ∧ ∀ c ∈ part, (Text.isEdge c && c != '(') = true := by
    simp only [← List.all_eq_true]
    decide
  unfold split? at h
  obtain ⟨⟨offset, sign⟩, hfind, h⟩ := Option.bind_eq_some_iff.1 h
  obtain ⟨op', -, h⟩ := Option.bind_eq_some_iff.1 h
  obtain ⟨hsign, a, b, rfl, rfl, htop⟩ := Text.exists_of_findTopLevel? hsigns hfind
  obtain ⟨hquote, hedge⟩ := hedges sign hsign
  obtain ⟨hne, -⟩ := hsigns sign hsign
  have hq : Text.quotedAfter false a = false := Text.quotedAfter_of_isTop htop
  rw [List.append_assoc, Text.splitAtByte_utf8Length] at h
  simp only [List.drop_left] at h
  cases h
  refine ⟨⟨[], sign ++ right, by simp, rfl, by simp, ?_⟩,
    ⟨left ++ sign, [], by simp, ?_, ?_, by simp⟩⟩
  · intro c hc
    rw [List.head?_append, List.head?_eq_some_head hne] at hc
    cases hc
    simpa using hedge _ (List.head_mem hne)
  · rw [Text.quotedAfter_append, hq, Text.quotedAfter_of_not_mem hquote]
  · intro c hc
    rw [Formula.getLast?_append_right hne] at hc
    exact (Bool.and_eq_true_iff.1 (hedge c (List.mem_of_getLast? hc))).1

theorem within_test (ht : Reader o eval P t) : (test eval t).Within P := by
  unfold test
  split
  · refine (Argument.reads_read ht).value.bind fun v => ?_
    split
    · exact Query.within_done _
    · split
      · exact Query.within_done _
      · exact Query.within_fail _
  · rename_i left op right h
    obtain ⟨hleft, hright⟩ := part_of_split? h
    refine (Argument.reads_read (ht.of_part hleft)).value.bind fun a => ?_
    refine (Argument.reads_read (ht.of_part hright)).value.bind fun b => ?_
    split <;> exact Query.within_done _

end Condition

namespace LibraryFunction

variable {args : List Argument} {β : Type}

theorem within_foldValues (h : ∀ a ∈ args, a.Reads o eval P) (f : β → Value → β) (b : β) :
    (foldValues o eval f b args).Within P :=
  Query.within_foldlM (fun a ha => (h a ha).foldValues f) b

theorem within_foldContents (h : ∀ a ∈ args, a.Reads o eval P) (f : β → Content → β) (b : β) :
    (foldContents o eval f b args).Within P :=
  Query.within_foldlM (fun a ha => (h a ha).foldContents f) b

section Choice

variable {condition yes : Argument} {no : Option Argument}

theorem within_chooseOf (hcondition : condition.Reads o eval P) (hyes : yes.Reads o eval P)
    (hno : ∀ a ∈ no, a.Reads o eval P) : (chooseOf eval condition yes no).Within P := by
  refine (Condition.within_test hcondition.text).bind fun r => ?_
  split
  · exact Query.within_done _
  · exact hyes.value
  · split
    · rename_i a
      exact (hno a rfl).value
    · exact Query.within_done _

end Choice

section Rounding

variable {a : Argument} {places : Option Argument}

theorem within_roundOf (ha : a.Reads o eval P) (hplaces : ∀ p ∈ places, p.Reads o eval P) :
    (roundOf eval a places).Within P := by
  refine ha.numberValue.bind fun x => ?_
  cases places with
  | none => exact (Query.within_done _).bind fun n => Query.within_done _
  | some p => exact (hplaces p rfl).numberValue.bind fun n => Query.within_done _

end Rounding

section Lookup

variable {needle table column : Argument} {flag : Option Argument} {r : Range} {x : Float}

theorem isFinite_of_number? {v : Value} (h : v.number? = some x) : x.isFinite = true := by
  cases v with
  | number y =>
    obtain ⟨hy, hxy⟩ := Option.ite_none_right_eq_some.1 h
    cases hxy
    exact hy
  | text s => exact (Option.filter_eq_some_iff.1 h).2
  | empty => cases h
  | boolean b => cases h
  | error e => cases h

theorem ensures_columnIndex (h : column.Reads o eval P) : (columnIndex eval column).Ensures P
    fun r => ∀ x, r = .ok x → Number.Binary.ofFloat x ≠ .nan := by
  refine Query.Ensures.bind h.value fun v _ => ?_
  split
  · exact fun x hx => nomatch hx
  · split
    · rename_i y hy
      intro x hx
      cases hx
      refine Number.trunc_ne_nan fun hnan => ?_
      obtain ⟨s, m, e, hfinite⟩ := Number.Binary.exists_finite (isFinite_of_number? hy)
      rw [hfinite] at hnan
      cases hnan
    · trivial

theorem toNat_resultColumn {first : UInt32} {n : Nat} (hn : 1 ≤ n) (hsize : n < UInt32.size)
    (hlast : first.toNat + n ≤ UInt32.size) :
    (resultColumn first n.toUInt32).toNat = first.toNat + n - 1 := by
  have hnat : n.toUInt32.toNat = n := UInt32.toNat_ofNat_of_lt' hsize
  have hone : (1 : UInt32).toNat = 1 := rfl
  simp only [UInt32.size] at hsize hlast
  rw [resultColumn, UInt32.toNat_sub, UInt32.toNat_add, hnat]
  omega

/-- The column found for a number between one and the width lies in the table. -/
theorem resultColumn_mem (hx : Number.Binary.ofFloat x ≠ .nan) (hone : ¬x < 1)
    (hwidth : ¬Float.ofNat r.colCount < x) {row : UInt32} (hrow : row ∈ r.rows) :
    (⟨row, resultColumn r.start.col (Number.truncClamped 0 (UInt32.size - 1) x).toNat.toUInt32⟩ :
      Cell) ∈ r.cells := by
  have hcol : r.start.col.toNat ≤ r.stop.col.toNat := UInt32.le_iff_toNat_le.1 r.col_le
  have hstop : r.stop.col.toNat < 4294967296 := r.stop.col.toNat_lt
  have hsize : (UInt32.size : Int) = 4294967296 := rfl
  have hcount : r.colCount = r.stop.col.toNat - r.start.col.toNat + 1 := rfl
  have hle : r.colCount ≤ UInt32.size := by
    simp only [UInt32.size]
    omega
  obtain ⟨hlo, hhi⟩ := Number.truncClamped_between r.one_le_colCount hle hx hone hwidth
  have hlimit : (0 : Int) ≤ UInt32.size - 1 := by decide
  obtain ⟨-, hmost⟩ := Number.truncClamped_mem (Int.le_refl 0) hlimit x
  obtain ⟨n, hn⟩ := Int.eq_ofNat_of_zero_le (Int.le_trans (by decide) hlo)
  rw [hn] at hlo hhi hmost ⊢
  have hsize' : UInt32.size = 4294967296 := rfl
  have hresult : (resultColumn r.start.col n.toUInt32).toNat = r.start.col.toNat + n - 1 :=
    toNat_resultColumn (by omega) (by omega) (by omega)
  rw [Range.mem_cells, Range.contains_iff]
  refine ⟨Range.mem_rows.1 hrow, ?_⟩
  change r.start.col.toNat ≤ (resultColumn r.start.col n.toUInt32).toNat ∧
    (resultColumn r.start.col n.toUInt32).toNat ≤ r.stop.col.toNat
  rw [hresult]
  omega

theorem within_firstMatch (m : MatchMode) (v : Value) {keys result : UInt32} {rows : List UInt32}
    (hkeys : ∀ row ∈ rows, P ⟨row, keys⟩) (hresult : ∀ row ∈ rows, P ⟨row, result⟩) :
    (firstMatch m v keys result rows).Within P := by
  induction rows with
  | nil => exact Query.within_done _
  | cons row rows ih =>
    obtain ⟨hkey, hkeys⟩ := List.forall_mem_cons.1 hkeys
    obtain ⟨hfound, hresult⟩ := List.forall_mem_cons.1 hresult
    refine Query.within_computed hkey fun key => ?_
    split
    · exact Query.within_stored hfound fun c => Query.within_done _
    · exact ih hkeys hresult

theorem within_lookupOf (hneedle : needle.Reads o eval P) (htable : table.Reads o eval P)
    (hcolumn : column.Reads o eval P) (hflag : ∀ a ∈ flag, a.Reads o eval P) :
    (lookupOf o eval needle table column flag).Within P := by
  refine hneedle.value.bind fun v => ?_
  split
  · exact Query.within_done _
  · split
    · rename_i r hr
      refine Query.Ensures.bind (Argument.ensures_checkRange o r) fun _ hlimit => ?_
      refine Query.Ensures.bind (ensures_columnIndex hcolumn) fun found hfound => ?_
      split
      · exact Query.within_done _
      · rename_i x
        split
        · exact Query.within_fail _
        · rename_i hbounds
          simp only [Bool.or_eq_true, decide_eq_true_eq, not_or] at hbounds
          refine Query.Within.bind ?_ fun mode => within_firstMatch _ _ ?_ ?_
          · unfold matchMode
            split
            · exact Query.within_done _
            · rename_i a
              exact (hflag a rfl).value.bind fun _ => Query.within_done _
          · intro row hrow
            refine htable.range r hr hlimit _ (Range.mem_cells.2 (Range.contains_iff.2 ?_))
            exact ⟨Range.mem_rows.1 hrow, Nat.le_refl _, UInt32.le_iff_toNat_le.1 r.col_le⟩
          · intro row hrow
            exact htable.range r hr hlimit _
              (resultColumn_mem (hfound x rfl) hbounds.1 hbounds.2 hrow)
    · exact Query.within_fail _

end Lookup

theorem within_result (f : LibraryFunction) (h : ∀ a ∈ args, a.Reads o eval P) :
    (f.result o eval args).Within P := by
  have hhead {a : Argument} {rest : List Argument} (ha : a ∈ rest.head?) : a ∈ rest :=
    List.mem_of_mem_head? ha
  unfold result
  split
  · refine (within_foldValues h _ _).bind fun t => ?_
    split
    · exact Query.within_fail _
    · exact Query.within_done _
  · exact (within_foldContents h _ _).bind fun _ => Query.within_done _
  · exact (within_foldContents h _ _).bind fun _ => Query.within_done _
  · exact (within_foldValues h _ _).bind fun _ => Query.within_done _
  · exact (within_foldValues h _ _).bind fun _ => Query.within_done _
  · exact (within_foldValues h _ _).bind fun _ => Query.within_done _
  · rename_i condition yes no
    exact within_chooseOf (h _ (by simp)) (h _ (by simp)) fun a ha => h a (by simp [hhead ha])
  · exact (h _ (by simp)).storedText.bind fun _ => Query.within_done _
  · exact (h _ (by simp)).storedText.bind fun _ => Query.within_done _
  · exact (h _ (by simp)).storedText.bind fun _ => Query.within_done _
  · exact (h _ (by simp)).storedText.bind fun _ => Query.within_done _
  · rename_i a places
    exact within_roundOf (h _ (by simp)) fun p hp => h p (by simp [hhead hp])
  · rename_i needle table column flag
    exact within_lookupOf (h _ (by simp)) (h _ (by simp)) (h _ (by simp)) fun a ha =>
      h a (by simp [hhead ha])
  · exact Query.within_fail _

/-- A call reads what its arguments mention and what formulas among them read. -/
theorem within_call (f : LibraryFunction) (h : ∀ a ∈ args, a.Reads o eval P) :
    (f.call o eval args).Within P := by
  refine (Query.within_ofExcept _).bind fun _ => ?_
  exact (within_result f h).bind fun _ => Query.within_ofExcept _

end LibraryFunction

end Spreadsheet
