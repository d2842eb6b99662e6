import Spreadsheet.Proofs.Context
import Spreadsheet.Proofs.Context.Finite

/-!
Looking up a value. The first row counts whose key matches, where the keys are computed from the top
one after the other, and the column counts that is the whole part of a number. What is found is the
stored content there; only a lookup without a match ends with the error for that.
-/
namespace Spreadsheet

namespace MatchMode

/-- When a value matches a key. Either both count as numbers, as a text does that denotes one, or
neither does. -/
inductive Matches : MatchMode → Value → Value → Prop
  | equal {v w : Value} {y z : Float} (hv : v.number? = some y) (hw : w.number? = some z)
    (h : (y == z) = true) : Matches .exact v w
  | near {v w : Value} {y z t : Float} (hv : v.number? = some y) (hw : w.number? = some z)
    (h : (y - z).abs ≤ t) : Matches (.approximate t) v w
  | same {v w : Value} (hv : v.number? = none) (hw : w.number? = none) (h : v.asText = w.asText) :
    Matches .exact v w
  | alike {v w : Value} {t : Float} (hv : v.number? = none) (hw : w.number? = none)
    (h : (Text.trim v.asText.toList).map Char.toLower =
      (Text.trim w.asText.toList).map Char.toLower) : Matches (.approximate t) v w

variable {m : MatchMode} {v w : Value}

theorem accepts_iff : m.accepts v w = true ↔ m.Matches v w := by
  constructor
  · intro h
    unfold accepts at h
    split at h
    · rename_i y z hv hw
      cases m with
      | exact => exact .equal hv hw h
      | approximate t => exact .near hv hw (of_decide_eq_true h)
    · rename_i hv hw
      cases m with
      | exact => exact .same hv hw (beq_iff_eq.1 h)
      | approximate t => exact .alike hv hw (beq_iff_eq.1 h)
    · cases h
  · intro h
    cases h with
    | equal hv hw h => simpa [accepts, hv, hw, numbersMatch] using h
    | near hv hw h => simpa [accepts, hv, hw, numbersMatch] using h
    | same hv hw h => simpa [accepts, hv, hw, textsMatch] using h
    | alike hv hw h => simpa [accepts, hv, hw, textsMatch, Text.sameIgnoringCase] using h

theorem findIdx?_accepts_eq_none_iff {keys : List Value} :
    keys.findIdx? (m.accepts v) = none ↔ ∀ key ∈ keys, ¬m.Matches v key := by
  simp only [List.findIdx?_eq_none_iff, ← accepts_iff, Bool.not_eq_true]

theorem findIdx?_accepts {keys : List Value} {k : Nat} (hkey : keys[k]? = some w)
    (h : m.Matches v w) (hfirst : ∀ j key, j < k → keys[j]? = some key → ¬m.Matches v key) :
    keys.findIdx? (m.accepts v) = some k := by
  obtain ⟨hlt, hget⟩ := List.getElem?_eq_some_iff.1 hkey
  refine List.findIdx?_eq_some_iff_getElem.2 ⟨hlt, ?_, fun j hj => ?_⟩
  · rw [hget]
    exact accepts_iff.2 h
  · have hlt' := Nat.lt_trans hj hlt
    exact fun haccept =>
      hfirst j _ hj (List.getElem?_eq_getElem hlt') (accepts_iff.1 haccept)

/-- False, zero, and the text `FALSE` in any case and with blanks around it. -/
inductive AsksExact : Value → Prop
  | no : AsksExact (.boolean false)
  | zero {x : Float} (h : (x == 0) = true) : AsksExact (.number x)
  | text {s : String}
    (h : (Text.trim s.toList).map Char.toLower = ['f', 'a', 'l', 's', 'e']) : AsksExact (.text s)

/-- Such a flag selects the exact mode; any other flag, and none, the tolerance of the options. -/
inductive Selects (o : Options) : Option Value → MatchMode → Prop
  | absent : Selects o none (.approximate o.tolerance)
  | exact {f : Value} (h : AsksExact f) : Selects o (some f) .exact
  | approximate {f : Value} (h : ¬AsksExact f) : Selects o (some f) (.approximate o.tolerance)

variable {o : Options} {f : Option Value}

theorem isExactFlag_iff : isExactFlag v = true ↔ AsksExact v := by
  constructor
  · intro h
    cases v with
    | boolean b =>
      cases b with
      | false => exact .no
      | true => cases h
    | number x => exact .zero h
    | text s => exact .text (beq_iff_eq.1 h)
    | _ => cases h
  · intro h
    cases h with
    | no => rfl
    | zero h => exact h
    | text h => exact beq_iff_eq.2 h

/-- The mode in which a lookup is made. -/
def ofFlag (o : Options) (f : Option Value) : MatchMode :=
  if f.any isExactFlag then .exact else .approximate o.tolerance

theorem selects_iff : Selects o f m ↔ m = ofFlag o f := by
  constructor
  · intro h
    cases h with
    | absent => rfl
    | exact h => exact (if_pos (isExactFlag_iff.2 h)).symm
    | approximate h => exact (if_neg (mt isExactFlag_iff.1 h)).symm
  · rintro rfl
    cases f with
    | none => exact .absent
    | some f =>
      unfold ofFlag
      split
      · rename_i h
        exact .exact (isExactFlag_iff.1 h)
      · rename_i h
        exact .approximate (mt isExactFlag_iff.2 h)

end MatchMode

namespace LibraryFunction

variable {x : Context} {eval : Text → Query Value} {v w : Value} {p p' p₁ p₂ p₃ : Progress}

section Search

/-- The search ends at the first key that is accepted. The keys behind it are not computed, but
those before it are as if all were. -/
theorem answer_firstMatch (x : Context) (m : MatchMode) (v : Value) (keys column : UInt32)
    (rows : List UInt32) (p : Progress) :
    (x.answer (firstMatch m v keys column rows) p).1 =
      .ok ((((x.cellValues (rows.map (⟨·, keys⟩)) p).1.findIdx? (m.accepts v)).bind (rows[·]?)).elim
        (.error .notAvailable) fun row => .ofContent (x.grid.get ⟨row, column⟩)) := by
  induction rows generalizing p with
  | nil => rfl
  | cons row rows ih =>
    simp only [firstMatch, x.answer_computed, List.map_cons, Context.cellValues, List.findIdx?_cons]
    by_cases h : m.accepts v (x.cellValue ⟨row, keys⟩ p).1 = true
    · rw [if_pos h, if_pos h]
      rfl
    · rw [if_neg h, if_neg h, ih, Option.bind_map]
      rfl

end Search

section Arguments

variable {needle table column : Argument} {flag : Option Argument} {r : Range} {f : Option Value}
  {y : Float} {i : Nat}

theorem answer_columnIndex (h : x.answer (column.value eval) p = (.ok w, p'))
    (hw : w.number? = some y) :
    x.answer (columnIndex eval column) p = (.ok (.ok (Number.trunc y)), p') := by
  unfold columnIndex
  rw [x.answer_bind_of_ok h]
  split
  · cases hw
  · rw [hw]
    rfl

theorem answer_matchMode (h : x.answer (flag.mapM (·.value eval)) p = (.ok f, p')) :
    x.answer (matchMode x.options eval flag) p = (.ok (.ofFlag x.options f), p') := by
  cases flag with
  | none =>
    cases h
    rfl
  | some a =>
    obtain ⟨u, p₁, hu, hsome⟩ :=
      Query.exists_of_run_bind (q := a.value eval) (f := fun u => .done (some u)) h
    cases hsome
    exact x.answer_bind_of_ok hu

/-- The values in the first column of a table, computed from the top. -/
def tableKeys (x : Context) (r : Range) (p : Progress) : List Value :=
  (x.cellValues (r.rows.map (⟨·, r.start.col⟩)) p).1

/-- A lookup whose index is accepted ends with what the search in its table finds. -/
theorem answer_lookupOf_of_accepted {index : Float}
    (hneedle : x.answer (needle.value eval) p = (.ok v, p₁)) (hv : v.isError = false)
    (htable : table.kind = .range r) (hcount : r.cellCount ≤ x.options.maxRangeCells)
    (hindex : x.answer (columnIndex eval column) p₁ = (.ok (.ok index), p₂)) (hone : ¬index < 1)
    (hwidth : ¬Float.ofNat r.colCount < index)
    (hflag : x.answer (flag.mapM (·.value eval)) p₂ = (.ok f, p₃)) :
    (x.answer (lookupOf x.options eval needle table column flag) p).1 =
      .ok ((((tableKeys x r p₃).findIdx? ((MatchMode.ofFlag x.options f).accepts v)).bind
        (r.rows[·]?)).elim (.error .notAvailable) fun row =>
          .ofContent (x.grid.get ⟨row, resultColumn r.start.col
            (Number.truncClamped 0 (UInt32.size - 1) index).toNat.toUInt32⟩)) := by
  have hbounds : ¬(decide (index < 1) || decide (Float.ofNat r.colCount < index)) = true := by
    simp [hone, hwidth]
  unfold lookupOf
  rw [x.answer_bind_of_ok hneedle]
  split
  · cases hv
  · rw [htable]
    simp only
    have hchecked : x.answer (.ofExcept (x.options.checkRange r)) p₁ = (.ok (), p₁) := by
      rw [Argument.checkRange_of_le hcount]
      rfl
    rw [x.answer_bind_of_ok hchecked, x.answer_bind_of_ok hindex]
    simp only
    rw [if_neg hbounds, lookupIn, x.answer_bind_of_ok (answer_matchMode hflag), answer_firstMatch]
    rfl

theorem answer_lookupOf (hneedle : x.answer (needle.value eval) p = (.ok v, p₁))
    (hv : v.isError = false) (htable : table.kind = .range r)
    (hcount : r.cellCount ≤ x.options.maxRangeCells) (hstop : r.stop.col.toNat < UInt32.size - 1)
    (hcolumn : x.answer (column.value eval) p₁ = (.ok w, p₂)) (hw : w.number? = some y)
    (hwhole : Number.truncInt (Number.Binary.ofFloat y) = i) (hi : 1 ≤ i) (hwidth : i ≤ r.colCount)
    (hflag : x.answer (flag.mapM (·.value eval)) p₂ = (.ok f, p₃)) :
    (x.answer (lookupOf x.options eval needle table column flag) p).1 =
      .ok ((((tableKeys x r p₃).findIdx? ((MatchMode.ofFlag x.options f).accepts v)).bind
        (r.rows[·]?)).elim (.error .notAvailable) fun row =>
          .ofContent (x.grid.get ⟨row, resultColumn r.start.col i.toUInt32⟩)) := by
  have hcols := r.colCount_eq
  have hsize : r.colCount < UInt32.size := by omega
  obtain ⟨hone, hwide, hindex⟩ :=
    Number.trunc_between (isFinite_of_number? hw) hwhole hi hwidth hsize
  rw [answer_lookupOf_of_accepted hneedle hv htable hcount (answer_columnIndex hcolumn hw) hone
    hwide hflag, hindex]
  rfl

end Arguments

section Table

variable {needle table column : Argument} {flag : Option Argument}

theorem ofContent_ne_error (c : Content) (e : CellError) : Value.ofContent c ≠ .error e := by
  cases c <;> simp [Value.ofContent]

theorem checkArity_lookup : checkArity .lookup
    (needle :: table :: column :: flag.toList).length = .ok () := by
  cases flag <;> rfl

theorem result_lookup (o : Options) :
    result o eval .lookup (needle :: table :: column :: flag.toList) =
      lookupOf o eval needle table column flag := by
  cases flag <;> rfl

theorem length_tableKeys (x : Context) (r : Range) (p : Progress) :
    (tableKeys x r p).length = r.rowCount := by
  simp [tableKeys, Context.length_cellValues, Range.rows]

end Table

/-- A lookup ends with the error for that if and only if no key matches. Otherwise it gives the
stored content of the first row whose key does, in the column asked for. The flag selects when a key
matches. -/
theorem answer_lookup {x : Context} {eval : Text → Query Value} {needle table column : Argument}
    {flag : Option Argument} {r : Range} {v w : Value} {f : Option Value} {m : MatchMode} {y : Float}
    {i : Nat} {p p₁ p₂ p₃ : Progress} (hgrid : x.FiniteGrid)
    (hneedle : x.answer (needle.value eval) p = (.ok v, p₁)) (hv : v.isError = false)
    (htable : table.kind = .range r) (hcount : r.cellCount ≤ x.options.maxRangeCells)
    (hstop : r.stop.col.toNat < UInt32.size - 1)
    (hcolumn : x.answer (column.value eval) p₁ = (.ok w, p₂)) (hw : w.number? = some y)
    (hwhole : Number.truncInt (Number.Binary.ofFloat y) = i) (hi : 1 ≤ i) (hwidth : i ≤ r.colCount)
    (hflag : x.answer (flag.mapM (·.value eval)) p₂ = (.ok f, p₃))
    (hmode : MatchMode.Selects x.options f m) :
    ∃ u, (x.answer (call x.options eval .lookup (needle :: table :: column :: flag.toList)) p).1 =
        .ok u ∧
      (u = .error .notAvailable ↔ ∀ key ∈ tableKeys x r p₃, ¬m.Matches v key) ∧
      ∀ k key c, (tableKeys x r p₃)[k]? = some key → m.Matches v key →
        (∀ j other, j < k → (tableKeys x r p₃)[j]? = some other → ¬m.Matches v other) →
        c.row.toNat = r.start.row.toNat + k → c.col.toNat = r.start.col.toNat + i - 1 →
          u = .ofContent (x.grid.get c) := by
  have hcols := r.colCount_eq
  have hresult := answer_lookupOf hneedle hv htable hcount hstop hcolumn hw hwhole hi hwidth hflag
  rw [← MatchMode.selects_iff.1 hmode] at hresult
  have hcall {u : Value} (h : (x.answer (lookupOf x.options eval needle table column flag) p).1 =
      .ok u) (hu : u.IsFinite) : (x.answer (call x.options eval .lookup
        (needle :: table :: column :: flag.toList)) p).1 = .ok u := by
    rw [← result_lookup] at h
    have hanswer := x.answer_call checkArity_lookup (Prod.ext h rfl) (finiteValue_of_isFinite hu)
    rw [hanswer]
  cases hfind : (tableKeys x r p₃).findIdx? (m.accepts v) with
  | none =>
    rw [hfind] at hresult
    have hnone := MatchMode.findIdx?_accepts_eq_none_iff.1 hfind
    refine ⟨_, hcall hresult (by simp [Value.IsFinite]), iff_of_true rfl hnone, ?_⟩
    exact fun k key c hkey hmatch => absurd hmatch (hnone key (List.mem_of_getElem? hkey))
  | some k =>
    obtain ⟨hlt, -⟩ := List.findIdx?_eq_some_iff_getElem.1 hfind
    rw [length_tableKeys] at hlt
    have hget : r.rows[k]? = some (r.rowAt k) := by
      simp [Range.rows, hlt]
    rw [hfind, Option.bind_some, hget, Option.elim_some] at hresult
    refine ⟨_, hcall hresult (hgrid.isFinite_ofContent _), ?_, ?_⟩
    · rw [← MatchMode.findIdx?_accepts_eq_none_iff, hfind]
      exact iff_of_false (ofContent_ne_error _ _) (Option.some_ne_none k)
    · intro k' key c hkey hmatch hfirst hrow hcol
      obtain rfl : k = k' :=
        Option.some.inj (hfind.symm.trans (MatchMode.findIdx?_accepts hkey hmatch hfirst))
      have hcell : (⟨r.rowAt k, resultColumn r.start.col i.toUInt32⟩ : Cell) = c := by
        rw [Cell.eq_iff_toNat, Range.toNat_rowAt hlt,
          toNat_resultColumn hi (by omega) (by omega), hrow, hcol]
        exact ⟨rfl, rfl⟩
      rw [hcell]

/-- Keys that are the same but for case and blanks. The second is computed from the third. -/
def keyed : Context :=
  .untracked (.ofRows #[#[.text " B ", .number 1], #[.text "=A3", .number 7],
    #[.text "b", .number 8]]) .standard

/-- With the flag zero the second row is found, and without a flag the first. -/
theorem answer_lookup_keyed :
    keyed.FiniteGrid ∧
    (keyed.answer (call keyed.options (Formula.value keyed.options) .lookup
      (["\"b\"", "A1:B3", "2.5", "0"].map fun t => .read t.toList)) .start).1 = .ok (.number 7) ∧
    (keyed.answer (call keyed.options (Formula.value keyed.options) .lookup
      (["\"b\"", "A1:B3", "2.5"].map fun t => .read t.toList)) .start).1 = .ok (.number 1) := by
  have hgrid : keyed.FiniteGrid := Context.finiteGrid_of_rows (by decide +kernel)
  have hkeys : tableKeys keyed (.ofCorners ⟨0, 0⟩ ⟨2, 1⟩) .start =
      [.text " B ", .text "b", .text "b"] := by
    decide +kernel
  have hneedle : keyed.answer ((Argument.read "\"b\"".toList).value (Formula.value keyed.options))
      .start = (.ok (.text "b"), .start) := rfl
  have htable : (Argument.read "A1:B3".toList).kind = .range (.ofCorners ⟨0, 0⟩ ⟨2, 1⟩) := rfl
  have hcolumn : keyed.answer ((Argument.read "2.5".toList).value (Formula.value keyed.options))
      .start = (.ok (.number 2.5), .start) := rfl
  have hflag : keyed.answer ((some (Argument.read "0".toList)).mapM
      (·.value (Formula.value keyed.options))) .start = (.ok (some (.number 0)), .start) := rfl
  have habsent : keyed.answer ((none : Option Argument).mapM
      (·.value (Formula.value keyed.options))) .start = (.ok none, .start) := rfl
  have hzero : MatchMode.Selects keyed.options (some (.number 0)) .exact :=
    .exact (.zero (by decide +kernel))
  obtain ⟨u, hu, -, hexact⟩ := answer_lookup (y := 2.5) (i := 2) hgrid hneedle rfl htable
    (by decide +kernel) (by decide) hcolumn (by decide +kernel) (by decide +kernel) (by decide)
    (by decide) hflag hzero
  obtain ⟨u', hu', -, hnear⟩ := answer_lookup (y := 2.5) (i := 2) hgrid hneedle rfl htable
    (by decide +kernel) (by decide) hcolumn (by decide +kernel) (by decide +kernel) (by decide)
    (by decide) habsent .absent
  rw [hkeys] at hexact hnear
  have hsecond := hexact 1 (.text "b") ⟨1, 1⟩ rfl (MatchMode.accepts_iff.1 (by decide +kernel))
    ?_ rfl rfl
  · have hfirst := hnear 0 (.text " B ") ⟨0, 1⟩ rfl (MatchMode.accepts_iff.1 (by decide +kernel))
      nofun rfl rfl
    refine ⟨hgrid, hu.trans ?_, hu'.trans ?_⟩
    · rw [hsecond]
      rfl
    · rw [hfirst]
      rfl
  · intro j other hj hother
    obtain rfl : j = 0 := by omega
    cases hother
    rw [← MatchMode.accepts_iff]
    decide +kernel

end LibraryFunction

end Spreadsheet
