import Spreadsheet.Proofs.Library.Reads
import Spreadsheet.Proofs.Query.Yields

/-!
What a library call comes out with. A function passes on the values it is given, or it makes a new
one: a text, a truth value, an error of its own, or a number, and the numbers are made sure of
afterwards. So a call stays in every set of values that admits these.
-/
namespace Spreadsheet

open Query (Settles Yields)

variable {V : Value → Prop} {S : Content → Prop} {eval : Text → Query Value} {o : Options} {t : Text}
  {β : Type}

/-- If the value is a number, it is finite. -/
def Value.IsFinite (v : Value) : Prop := ∀ x, v = .number x → x.isFinite = true

/-- The set has the values that formulas make by themselves, and those of the stored contents. -/
structure Admits (V : Value → Prop) (S : Content → Prop) : Prop where
  plain : ∀ v : Value, v.isError = false → v.IsFinite → V v
  failed : V (.error .failed)
  notAvailable : V (.error .notAvailable)
  content : ∀ c, S c → V (.ofContent c)

theorem Admits.empty (h : Admits V S) : V .empty := h.plain _ rfl (by simp [Value.IsFinite])

theorem Admits.text (h : Admits V S) (s : String) : V (.text s) :=
  h.plain _ rfl (by simp [Value.IsFinite])

theorem Admits.boolean (h : Admits V S) (b : Bool) : V (.boolean b) :=
  h.plain _ rfl (by simp [Value.IsFinite])

theorem Admits.number (h : Admits V S) {x : Float} (hx : x.isFinite = true) : V (.number x) :=
  h.plain _ rfl (by simp [Value.IsFinite, hx])

/-- The texts inside a formula evaluate to admitted values. -/
structure Evaluator (V : Value → Prop) (S : Content → Prop) (eval : Text → Query Value) : Prop
    extends Admits V S where
  yields : ∀ s, (eval s).Yields V S V

namespace Argument

variable {a : Argument}

theorem settles_checkRange (h : Admits V S) (o : Options) (r : Range) :
    Settles V (fun _ => True) (o.checkRange r) := by
  unfold Options.checkRange
  split
  · exact h.failed
  · trivial

theorem settle_mem (h : Admits V S) {r : Except FormulaError Value} (hr : Settles V V r) (t : Text) :
    V (settle t r) := by
  unfold settle
  split
  · exact hr
  · exact hr
  · exact h.text _

/-- The number that the argument is written as is finite. -/
def Literal (a : Argument) : Prop := ∀ x, a.kind = .number x → x.isFinite = true

theorem literal_read (t : Text) : (read t).Literal := by
  intro x hx
  have hparse : Number.parse? (Text.trim t) = some x := tells_of_read hx
  exact (Option.filter_eq_some_iff.1 hparse).2

theorem Literal.yields_value (ha : a.Literal) (h : Evaluator V S eval) :
    (a.value eval).Yields V S V := by
  unfold Argument.value
  split
  · exact h.empty
  · exact h.failed
  · exact fun v hv => hv
  · exact h.text _
  · rename_i x hx
    exact h.number (ha x hx)
  · exact (h.yields a.text).attempt.bind fun r hr => settle_mem h.toAdmits hr a.text

theorem Literal.yields_storedText (ha : a.Literal) (h : Evaluator V S eval) :
    (a.storedText eval).Yields V S fun _ => True := by
  unfold Argument.storedText
  split
  · trivial
  · exact h.failed
  · exact fun _ _ => trivial
  · trivial
  · trivial
  · refine (ha.yields_value h).bind fun v hv => ?_
    cases v with
    | error e => exact hv
    | _ => trivial

theorem Literal.yields_foldValues (ha : a.Literal) (h : Evaluator V S eval) (f : β → Value → β)
    (b : β) : (a.foldValues o eval f b).Yields V S fun _ => True := by
  unfold Argument.foldValues
  split
  · rename_i r _
    have hr := Query.yields_ofExcept (S := S) (settles_checkRange h.toAdmits o r)
    exact hr.bind fun _ _ => Query.yields_foldComputed f r.cells b
  · exact (ha.yields_value h).bind fun _ _ => trivial

theorem Literal.yields_foldContents (ha : a.Literal) (h : Evaluator V S eval)
    (f : β → Content → β) (b : β) : (a.foldContents o eval f b).Yields V S fun _ => True := by
  unfold Argument.foldContents
  split
  · rename_i r _
    have hr := Query.yields_ofExcept (S := S) (settles_checkRange h.toAdmits o r)
    exact hr.bind fun _ _ => Query.yields_foldStored f r.cells b
  · exact fun _ _ => trivial
  · trivial
  · exact (ha.yields_storedText h).bind fun _ _ => trivial

theorem Literal.yields_numberValue (ha : a.Literal) (h : Evaluator V S eval) :
    (a.numberValue eval).Yields V S fun _ => True := by
  refine (ha.yields_value h).bind fun v hv => ?_
  split
  · exact hv
  · trivial
  · split
    · trivial
    · exact h.failed

end Argument

open Argument (Literal literal_read)

theorem Condition.yields_test (h : Evaluator V S eval) (t : Text) :
    (test eval t).Yields V S fun r => ∀ e, r = .error e → V (.error e) := by
  unfold test
  split
  · refine ((literal_read t).yields_value h).bind fun v hv => ?_
    split
    · intro e he
      cases he
      exact hv
    · split
      · exact fun e he => by cases he
      · exact h.failed
  · rename_i left op right _
    refine ((literal_read left).yields_value h).bind fun a ha => ?_
    refine ((literal_read right).yields_value h).bind fun b hb => ?_
    split
    · intro e he
      cases he
      exact ha
    · intro e he
      cases he
      exact hb
    · exact fun e he => by cases he

namespace LibraryFunction

variable {args : List Argument}

theorem yields_foldValues (h : Evaluator V S eval) (hargs : ∀ a ∈ args, a.Literal)
    (f : β → Value → β) (b : β) : (foldValues o eval f b args).Yields V S fun _ => True :=
  Query.yields_foldlM (fun a ha b _ => (hargs a ha).yields_foldValues h f b) trivial

theorem yields_foldContents (h : Evaluator V S eval) (hargs : ∀ a ∈ args, a.Literal)
    (f : β → Content → β) (b : β) : (foldContents o eval f b args).Yields V S fun _ => True :=
  Query.yields_foldlM (fun a ha b _ => (hargs a ha).yields_foldContents h f b) trivial

section Choice

variable {condition yes : Argument} {no : Option Argument}

theorem yields_chooseOf (h : Evaluator V S eval) (hyes : yes.Literal) (hno : ∀ a ∈ no, a.Literal) :
    (chooseOf eval condition yes no).Yields V S V := by
  refine (Condition.yields_test h condition.text).bind fun r hr => ?_
  split
  · exact hr _ rfl
  · exact hyes.yields_value h
  · split
    · rename_i a
      exact (hno a rfl).yields_value h
    · exact h.boolean false

end Choice

section Lookup

variable {needle table column : Argument} {flag : Option Argument}

theorem yields_firstMatch (h : Admits V S) (m : MatchMode) (v : Value) {keys result : UInt32}
    (rows : List UInt32) : (firstMatch m v keys result rows).Yields V S V := by
  induction rows with
  | nil => exact h.notAvailable
  | cons row rows ih =>
    intro key _
    dsimp only
    split
    · exact h.content
    · exact ih

theorem yields_columnIndex (h : Evaluator V S eval) (hcolumn : column.Literal) :
    (columnIndex eval column).Yields V S fun r => ∀ e, r = .error e → V (.error e) := by
  refine (hcolumn.yields_value h).bind fun v hv => ?_
  split
  · intro e he
    cases he
    exact hv
  · split
    · exact fun e he => by cases he
    · exact h.failed

theorem yields_lookupIn (h : Evaluator V S eval) (hflag : ∀ a ∈ flag, a.Literal) (v : Value)
    (r : Range) (x : Float) : (lookupIn o eval v r x flag).Yields V S V := by
  have hmode : (matchMode o eval flag).Yields V S fun _ => True := by
    unfold matchMode
    split
    · trivial
    · rename_i a
      exact ((hflag a rfl).yields_value h).bind fun _ _ => trivial
  exact hmode.bind fun m _ => yields_firstMatch h.toAdmits m v _

theorem yields_lookupOf (h : Evaluator V S eval) (hneedle : needle.Literal)
    (hcolumn : column.Literal) (hflag : ∀ a ∈ flag, a.Literal) :
    (lookupOf o eval needle table column flag).Yields V S V := by
  refine (hneedle.yields_value h).bind fun v hv => ?_
  split
  · exact hv
  · split
    · rename_i r _
      have hr := Query.yields_ofExcept (S := S) (Argument.settles_checkRange h.toAdmits o r)
      refine hr.bind fun _ _ => (yields_columnIndex h hcolumn).bind fun found hfound => ?_
      split
      · exact hfound _ rfl
      · split
        · exact h.failed
        · exact yields_lookupIn h hflag v r _
    · exact h.failed

end Lookup

/-- A value of the set, or a number that has not been looked at yet. -/
def Unchecked (V : Value → Prop) (v : Value) : Prop := V v ∨ ∃ x, v = .number x

theorem unchecked_number (x : Float) : Unchecked V (.number x) := .inr ⟨x, rfl⟩

theorem yields_roundOf (h : Evaluator V S eval) {a : Argument} {places : Option Argument}
    (ha : a.Literal) (hplaces : ∀ p ∈ places, p.Literal) :
    (roundOf eval a places).Yields V S (Unchecked V) := by
  refine (ha.yields_numberValue h).bind fun x _ => ?_
  cases places with
  | none => exact unchecked_number _
  | some p => exact ((hplaces p rfl).yields_numberValue h).bind fun n _ => unchecked_number _

theorem yields_ofText (h : Evaluator V S eval) {f : String → Value} (hf : ∀ s, Unchecked V (f s))
    {a : Argument} (ha : a.Literal) : (ofText eval f a).Yields V S (Unchecked V) :=
  (ha.yields_storedText h).bind fun s _ => hf s

theorem yields_result (f : LibraryFunction) (h : Evaluator V S eval)
    (hargs : ∀ a ∈ args, a.Literal) : (f.result o eval args).Yields V S (Unchecked V) := by
  have hhead {a : Argument} {rest : List Argument} (ha : a ∈ rest.head?) : a ∈ rest :=
    List.mem_of_mem_head? ha
  have hlength : ∀ s, Unchecked V (lengthOf s) := fun s => unchecked_number _
  have hmap : ∀ f s, Unchecked V (mapText f s) := fun f s => .inl (h.text _)
  unfold result
  split
  · refine (yields_foldValues h hargs _ _).bind fun t _ => ?_
    split
    · exact h.failed
    · exact unchecked_number _
  · exact (yields_foldContents h hargs _ _).bind fun s _ => .inl (h.text s)
  · exact (yields_foldContents h hargs _ _).bind fun n _ => unchecked_number _
  · exact (yields_foldValues h hargs _ _).bind fun x _ => unchecked_number _
  · exact (yields_foldValues h hargs _ _).bind fun x _ => unchecked_number _
  · exact (yields_foldValues h hargs _ _).bind fun x _ => unchecked_number _
  · rename_i condition yes no
    have hno : ∀ a ∈ no.head?, a.Literal := fun a ha => hargs a (by simp [hhead ha])
    exact (yields_chooseOf h (hargs yes (by simp)) hno).mono fun v => .inl
  · exact yields_ofText h hlength (hargs _ (by simp))
  · exact yields_ofText h (hmap _) (hargs _ (by simp))
  · exact yields_ofText h (hmap _) (hargs _ (by simp))
  · exact yields_ofText h (hmap _) (hargs _ (by simp))
  · exact yields_roundOf h (hargs _ (by simp)) fun p hp => hargs p (by simp [hhead hp])
  · rename_i needle table column flag
    have hflag : ∀ a ∈ flag.head?, a.Literal := fun a ha => hargs a (by simp [hhead ha])
    exact (yields_lookupOf h (hargs needle (by simp)) (hargs column (by simp)) hflag).mono
      fun v => .inl
  · exact h.failed

theorem finiteValue_of_isFinite {v : Value} (h : v.IsFinite) : finiteValue v = .ok v := by
  cases v with
  | number x => exact if_pos (h x rfl)
  | _ => rfl

theorem settles_finiteValue (h : Admits V S) {v : Value} (hv : Unchecked V v) :
    Settles V V (finiteValue v) := by
  unfold finiteValue
  split
  · split
    · exact h.number ‹_›
    · exact h.failed
  · rename_i hnumber
    exact hv.resolve_right fun ⟨x, hx⟩ => hnumber x hx

/-- A call comes out with an admitted value. -/
theorem yields_call (f : LibraryFunction) (h : Evaluator V S eval)
    (hargs : ∀ a ∈ args, a.Literal) : (f.call o eval args).Yields V S V := by
  have harity : Settles V (fun _ => True) (f.checkArity args.length) := by
    unfold checkArity
    split
    · trivial
    · exact h.failed
  refine (Query.yields_ofExcept harity).bind fun _ _ => (yields_result f h hargs).bind fun v hv => ?_
  exact Query.yields_ofExcept (settles_finiteValue h.toAdmits hv)

end LibraryFunction

end Spreadsheet
