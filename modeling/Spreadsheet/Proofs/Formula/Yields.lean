import Spreadsheet.Formula.Evaluate
import Spreadsheet.Proofs.Library.Yields

/-!
What a formula comes out with, when the cells that it asks for answer as expected. On its way from
the cells to the result a value passes through calls and, as a number, through the arithmetic that
is left; the failures on the way show an error of a cell or the general one.
-/
namespace Spreadsheet.Formula

open Query (Settles)

variable {V : Value → Prop} {S : Content → Prop} {eval : Text → Query Value} {o : Options}

theorem yields_callNamed (h : Evaluator V S eval) (name args : Text) :
    (callNamed o eval name args).Yields V S V := by
  unfold callNamed
  split
  · exact h.failed
  · refine LibraryFunction.yields_call _ h fun a ha => ?_
    obtain ⟨s, -, rfl⟩ := List.mem_map.1 ha
    exact Argument.literal_read s

section Expand

theorem settles_callLiteral (h : Admits V S) {v : Value} (hv : V v) :
    Settles V (fun _ => True) (callLiteral v) := by
  unfold callLiteral
  split
  · exact hv
  · trivial
  · split
    · trivial
    · exact h.failed

theorem yields_expandSegments (h : Evaluator V S eval) (ss : List Segment) :
    (expandSegments o eval ss).Yields V S fun _ => True := by
  induction ss with
  | nil => trivial
  | cons s ss ih =>
    have hs : (s.expand o eval).Yields V S fun _ => True := by
      cases s with
      | plain c => trivial
      | call name args =>
        exact (yields_callNamed h name args).bind fun v hv =>
          Query.yields_ofExcept (settles_callLiteral h.toAdmits hv)
      | unclosed name => exact h.failed
    exact hs.bind fun _ _ => ih.bind fun _ _ => trivial

end Expand

section Substitute

theorem settles_cellLiteral {v : Value} (hv : V v) : Settles V (fun _ => True) (cellLiteral v) := by
  unfold cellLiteral
  split
  · exact hv
  · trivial
  · trivial

theorem yields_substitutePieces (h : Admits V S) (ps : List Piece) :
    (substitutePieces ps).Yields V S fun _ => True := by
  induction ps with
  | nil => trivial
  | cons p ps ih =>
    have hp : p.substitute.Yields V S fun _ => True := by
      unfold Piece.substitute
      split
      · trivial
      · exact fun v hv => Query.yields_ofExcept (settles_cellLiteral hv)
      · exact h.failed
    exact hp.bind fun _ _ => ih.bind fun _ _ => trivial

end Substitute

/-- An expression has a value only if it is a truth value or a finite number. -/
theorem settles_ofScalar (h : Admits V S) (t : Text) :
    Settles V V (ofScalar (Expression.evaluate t)) := by
  unfold Expression.evaluate
  split
  · exact h.failed
  · rename_i e _
    split
    · rename_i hfinite
      cases hvalue : e.value with
      | number x =>
        rw [hvalue] at hfinite
        exact h.number hfinite
      | boolean b => exact h.boolean b
    · exact h.failed

theorem yields_expressionValue (h : Evaluator V S eval) (t : Text) :
    (expressionValue o eval t).Yields V S V := by
  refine (yields_expandSegments h _).bind fun u _ => ?_
  refine (yields_substitutePieces h.toAdmits _).bind fun w _ => ?_
  exact Query.yields_ofExcept (settles_ofScalar h.toAdmits w)

theorem yields_plainValue (h : Evaluator V S eval) (t : Text) :
    (plainValue o eval t).Yields V S V := by
  unfold plainValue
  split
  · exact fun v hv => hv
  · split
    · exact h.text _
    · split
      · exact h.failed
      · exact yields_expressionValue h t

theorem yields_valueWith (h : Evaluator V S eval) (t : Text) :
    (valueWith o eval t).Yields V S V := by
  simp only [valueWith]
  split
  · exact h.failed
  · split
    · split
      · exact yields_callNamed h _ _
      · exact yields_plainValue h _
    · exact yields_plainValue h _

/-- A formula comes out with an admitted value, if what it reads is admitted. -/
theorem yields_value (h : Admits V S) (o : Options) (t : Text) : (value o t).Yields V S V := by
  induction hn : t.length using Nat.strongRecOn generalizing t with
  | ind n ih =>
    subst hn
    rw [value]
    refine yields_valueWith { h with yields := fun s => ?_ } t
    split
    · rename_i hlt
      exact ih s.length hlt s rfl
    · exact h.failed

theorem evaluator_value (h : Admits V S) (o : Options) : Evaluator V S (value o) :=
  { h with yields := yields_value h o }

end Spreadsheet.Formula
