import Spreadsheet.Proofs.Context
import Spreadsheet.Proofs.Number.Quotient

/-!
Functions over all the cells of their arguments. All they see of the arguments is the row of values
or contents that they go through, so a range can be cut into blocks of rows. An average goes the way
of a sum and counts the values besides.
-/
namespace Spreadsheet

variable {o : Options} {eval : Text → Query Value} {a upper lower : Argument} {r top bottom : Range}
  {β : Type}

namespace Argument

section Blocks

theorem foldValues_of_range (ha : a.kind = .range r) (h : r.cellCount ≤ o.maxRangeCells)
    (f : β → Value → β) (b : β) : a.foldValues o eval f b = .foldComputed f b r.cells := by
  simp only [foldValues, ha]
  rw [checkRange_of_le h]
  rfl

theorem foldContents_of_range (ha : a.kind = .range r) (h : r.cellCount ≤ o.maxRangeCells)
    (f : β → Content → β) (b : β) : a.foldContents o eval f b = .foldStored f b r.cells := by
  simp only [foldContents, ha]
  rw [checkRange_of_le h]
  rfl

/-- A range argument, and two arguments for its upper and its lower rows. The range is small enough
to be visited. -/
structure Blocks (o : Options) (a upper lower : Argument) (r top bottom : Range) : Prop where
  kind : a.kind = .range r
  upper : upper.kind = .range top
  lower : lower.kind = .range bottom
  stacked : r.Stacked top bottom
  cellCount_le : r.cellCount ≤ o.maxRangeCells

theorem Blocks.foldValues_eq (h : Blocks o a upper lower r top bottom) (f : β → Value → β) (b : β) :
    a.foldValues o eval f b =
      upper.foldValues o eval f b >>= fun b => lower.foldValues o eval f b := by
  have htop := h.stacked.cellCount_top_le.trans h.cellCount_le
  have hbottom := h.stacked.cellCount_bottom_le.trans h.cellCount_le
  simp only [foldValues_of_range h.kind h.cellCount_le, foldValues_of_range h.upper htop,
    foldValues_of_range h.lower hbottom, h.stacked.cells_eq, Query.foldComputed_append]

theorem Blocks.foldContents_eq (h : Blocks o a upper lower r top bottom) (f : β → Content → β)
    (b : β) : a.foldContents o eval f b =
      upper.foldContents o eval f b >>= fun b => lower.foldContents o eval f b := by
  have htop := h.stacked.cellCount_top_le.trans h.cellCount_le
  have hbottom := h.stacked.cellCount_bottom_le.trans h.cellCount_le
  simp only [foldContents_of_range h.kind h.cellCount_le, foldContents_of_range h.upper htop,
    foldContents_of_range h.lower hbottom, h.stacked.cells_eq, Query.foldStored_append]

end Blocks

/-- How many values the argument stands for: the cells of a range, or one. -/
def covered (a : Argument) : Nat :=
  match a.kind with
  | .range r => r.cells.length
  | _ => 1

theorem covered_pos (a : Argument) : 0 < a.covered := by
  unfold covered
  split
  · rw [Range.length_cells]
    exact Nat.mul_pos (Range.one_le_rowCount _) (Range.one_le_colCount _)
  · exact Nat.one_pos

end Argument

namespace LibraryFunction

variable {before after args : List Argument} {f : LibraryFunction} {x : Context} {p p' : Progress}
  {v : Value}

/-- The functions that go through all the cells of their arguments. -/
def aggregates : List LibraryFunction := [.sum, .average, .min, .max, .count, .concatenate]

theorem checkArity_of_ne_nil (hf : f ∈ aggregates) (h : args ≠ []) :
    f.checkArity args.length = .ok () := by
  have harity : f.arity = .atLeast 1 := by
    revert f
    decide
  have hlength : 1 ≤ args.length := List.length_pos_iff.2 h
  rw [checkArity, harity, if_pos]
  simp [Arity.admits, Arity.atLeast, hlength]

section Blocks

theorem foldValues_blocks (h : Argument.Blocks o a upper lower r top bottom) (g : β → Value → β)
    (b : β) : foldValues o eval g b (before ++ a :: after) =
      foldValues o eval g b (before ++ upper :: lower :: after) := by
  simp only [foldValues, List.foldlM_append, List.foldlM_cons, h.foldValues_eq, bind_assoc]

theorem foldContents_blocks (h : Argument.Blocks o a upper lower r top bottom)
    (g : β → Content → β) (b : β) : foldContents o eval g b (before ++ a :: after) =
      foldContents o eval g b (before ++ upper :: lower :: after) := by
  simp only [foldContents, List.foldlM_append, List.foldlM_cons, h.foldContents_eq, bind_assoc]

/-- An aggregate asks for the same cells in the same order. -/
theorem call_blocks (hf : f ∈ aggregates) (h : Argument.Blocks o a upper lower r top bottom) :
    f.call o eval (before ++ a :: after) = f.call o eval (before ++ upper :: lower :: after) := by
  have hresult : f.result o eval (before ++ a :: after) =
      f.result o eval (before ++ upper :: lower :: after) := by
    simp only [aggregates, List.mem_cons, List.not_mem_nil, or_false] at hf
    rcases hf with rfl | rfl | rfl | rfl | rfl | rfl
    · simp only [result, sumOf, foldValues_blocks h]
    · simp only [result, averageOf, foldValues_blocks h]
    · simp only [result, extremeOf, foldValues_blocks h]
    · simp only [result, extremeOf, foldValues_blocks h]
    · simp only [result, countOf, foldContents_blocks h]
    · simp only [result, joinOf, foldContents_blocks h]
  rw [call, call, hresult, checkArity_of_ne_nil hf (by simp), checkArity_of_ne_nil hf (by simp)]

end Blocks

section Average

/-- How many values some arguments stand for. -/
def coverage (args : List Argument) : Nat := (args.map Argument.covered).sum

theorem coverage_pos (h : args ≠ []) : 0 < coverage args := by
  cases args with
  | nil => exact absurd rfl h
  | cons a args =>
    rw [coverage, List.map_cons, List.sum_cons]
    exact Nat.add_pos_left a.covered_pos _

theorem foldComputed_tally (s : Float) (n : Nat) (cs : List Cell) :
    Query.foldComputed Tally.add ⟨s, n⟩ cs =
      Query.foldComputed (fun s v => s + addend v) s cs >>= fun s =>
        .done ⟨s, n + cs.length⟩ := by
  change _ = (Query.foldComputed (fun s v => s + addend v) s cs).bind _
  induction cs generalizing s n with
  | nil => rfl
  | cons c cs ih =>
    simp only [Query.foldComputed, Query.bind, Tally.add, ih, List.length_cons]
    rw [Nat.add_right_comm, Nat.add_assoc]

theorem foldValues_tally_argument (s : Float) (n : Nat) (a : Argument) :
    a.foldValues o eval Tally.add ⟨s, n⟩ =
      a.foldValues o eval (fun s v => s + addend v) s >>= fun s => .done ⟨s, n + a.covered⟩ := by
  cases ha : a.kind with
  | range r => simp only [Argument.foldValues, Argument.covered, ha, foldComputed_tally, bind_assoc]
  | _ =>
    simp only [Argument.foldValues, Argument.covered, ha, bind_assoc]
    rfl

theorem foldValues_tally (s : Float) (n : Nat) (args : List Argument) :
    foldValues o eval Tally.add ⟨s, n⟩ args =
      foldValues o eval (fun s v => s + addend v) s args >>= fun s =>
        .done ⟨s, n + coverage args⟩ := by
  induction args generalizing s n with
  | nil => rfl
  | cons a args ih =>
    simp only [foldValues, List.foldlM_cons] at ih ⊢
    rw [foldValues_tally_argument]
    simp only [bind_assoc]
    congr 1
    funext s
    refine (ih s _).trans ?_
    simp only [coverage, List.map_cons, List.sum_cons, Nat.add_assoc]

theorem averageOf_eq (h : args ≠ []) : averageOf o eval args =
    foldValues o eval (fun s v => s + addend v) 0 args >>= fun s =>
      .done (.number (s / Float.ofNat (coverage args))) := by
  have hne : coverage args ≠ 0 := Nat.ne_of_gt (coverage_pos h)
  unfold averageOf
  rw [foldValues_tally]
  simp only [bind_assoc, Nat.zero_add]
  congr 1
  funext s
  change (if coverage args = 0 then _ else _) = _
  rw [if_neg hne]
  rfl

theorem call_sum_eq (h : args ≠ []) : call o eval .sum args =
    foldValues o eval (fun s v => s + addend v) 0 args >>= fun s =>
      .ofExcept (finiteValue (.number s)) := by
  rw [call, checkArity_of_ne_nil (by decide) h]
  simp only [result, sumOf, bind_assoc]
  rfl

/-- The average is the sum over the count of values. It is finite where the sum is. -/
theorem answer_average (h : x.answer (call x.options eval .sum args) p = (.ok v, p')) :
    ∃ s, v = .number s ∧ x.answer (call x.options eval .average args) p =
      (.ok (.number (s / Float.ofNat (coverage args))), p') := by
  have hne : args ≠ [] := by
    rintro rfl
    cases h
  rw [call_sum_eq hne] at h
  obtain ⟨s, p₁, hsum, hchecked⟩ := Query.exists_of_run_bind h
  rw [finiteValue] at hchecked
  split at hchecked
  · rename_i hfinite
    cases hchecked
    refine ⟨s, rfl, ?_⟩
    have hresult : x.answer (result x.options eval .average args) p =
        (.ok (.number (s / Float.ofNat (coverage args))), p') := by
      rw [result, averageOf_eq hne]
      exact Query.run_bind_of_ok hsum
    have haverage := Number.isFinite_div_ofNat hfinite (coverage_pos hne)
    exact x.answer_call (checkArity_of_ne_nil (by decide) hne) hresult (if_pos haverage)
  · cases hchecked

end Average

/-- An aggregate comes to the same result, from the same cells and with the same values remembered,
whether a range is one argument or its upper and its lower rows are two. And wherever a sum
succeeds, the average is the sum over the count of values. -/
theorem answer_aggregate (x : Context) (eval : Text → Query Value) (p : Progress) :
    (∀ f ∈ aggregates, ∀ before after a upper lower r top bottom,
      Argument.Blocks x.options a upper lower r top bottom →
        x.answer (call x.options eval f (before ++ a :: after)) p =
          x.answer (call x.options eval f (before ++ upper :: lower :: after)) p) ∧
      ∀ args v p', x.answer (call x.options eval .sum args) p = (.ok v, p') →
        ∃ s, v = .number s ∧ x.answer (call x.options eval .average args) p =
          (.ok (.number (s / Float.ofNat (coverage args))), p') :=
  ⟨fun _ hf _ _ _ _ _ _ _ _ h => by rw [call_blocks hf h], fun _ _ _ h => answer_average h⟩

/-- Two rows of a number and a text each. -/
def mixed : Context :=
  .untracked (.ofRows #[#[.number 1, .text "x"], #[.number 2, .text "4.5"]]) .standard

/-- A call on the texts of its arguments. -/
def mixedCall (f : LibraryFunction) (args : List String) :
    Except FormulaError Value × Progress :=
  mixed.answer (call mixed.options (Formula.value mixed.options) f
    (args.map fun t => .read t.toList)) .start

theorem answer_aggregate_mixed :
    Argument.Blocks mixed.options (.read "A1:B2".toList) (.read "A1:B1".toList)
      (.read "A2:B2".toList) (.ofCorners ⟨0, 0⟩ ⟨1, 1⟩) (.ofCorners ⟨0, 0⟩ ⟨0, 1⟩)
      (.ofCorners ⟨1, 0⟩ ⟨1, 1⟩) ∧
    (mixedCall .concatenate ["10", "A1:B2"]).1 = .ok (.text "101x24.5") ∧
    (mixedCall .concatenate ["10", "A1:B1", "A2:B2"]).1 = .ok (.text "101x24.5") ∧
    (mixedCall .sum ["10", "A1:B2"]).1 = .ok (.number 17.5) ∧
    (mixedCall .average ["10", "A1:B2"]).1 = .ok (.number (17.5 / Float.ofNat 5)) := by
  have hblocks : Argument.Blocks mixed.options (.read "A1:B2".toList) (.read "A1:B1".toList)
      (.read "A2:B2".toList) (.ofCorners ⟨0, 0⟩ ⟨1, 1⟩) (.ofCorners ⟨0, 0⟩ ⟨0, 1⟩)
      (.ofCorners ⟨1, 0⟩ ⟨1, 1⟩) :=
    ⟨rfl, rfl, rfl, ⟨rfl, rfl, rfl, rfl, rfl⟩, by decide +kernel⟩
  have hjoined : (mixedCall .concatenate ["10", "A1:B2"]).1 = .ok (.text "101x24.5") :=
    eq_ok_of_toOption (by decide +kernel)
  have hsum : (mixedCall .sum ["10", "A1:B2"]).1 = .ok (.number 17.5) :=
    eq_ok_of_toOption (by decide +kernel)
  have hcount : coverage (["10", "A1:B2"].map fun t => .read t.toList) = 5 := by decide +kernel
  obtain ⟨hcut, haverage⟩ := answer_aggregate mixed (Formula.value mixed.options) .start
  have hanswer : mixedCall .sum ["10", "A1:B2"] =
      (.ok (.number 17.5), (mixedCall .sum ["10", "A1:B2"]).2) := by
    rw [← hsum]
  obtain ⟨s, hs, hmean⟩ := haverage _ _ _ hanswer
  cases hs
  rw [hcount] at hmean
  have hrows := hcut .concatenate (by decide) [.read "10".toList] [] _ _ _ _ _ _ hblocks
  refine ⟨hblocks, hjoined, ?_, hsum, ?_⟩
  · rw [← hjoined]
    exact congrArg Prod.fst hrows.symm
  · rw [mixedCall, hmean]

end LibraryFunction

end Spreadsheet
