import Spreadsheet.Formula.Evaluate
import Spreadsheet.Proofs.Formula.Call
import Spreadsheet.Proofs.Formula.Scan

/-!
Segments of a text put together. A text in which no call of a known function begins is passed over
character by character, whatever follows it, and a call is one segment. The segments are expanded one
after the other.
-/
namespace Spreadsheet.Formula

open Text

variable {known : Text → Bool} {before : Option Char} {q : Bool} {c : Char}
  {r t w name inner args rest : Text}

/-- A character with which no call of a known function begins is a segment by itself. -/
theorem segmentsFrom_cons (h : q = false → before.any isWord = false →
    ∀ name inner, splitName? (c :: r) = some (name, inner) → known name = false) :
    segmentsFrom known before q (c :: r) =
      .plain c :: segmentsFrom known (some c) (quotedAfter q [c]) r := by
  have hquoted : quotedAfter q [c] = if c = '"' then !q else q := rfl
  rw [segmentsFrom, hquoted]
  split
  · rfl
  · split
    · rfl
    · rename_i hplain
      obtain ⟨rfl, hword⟩ : q = false ∧ before.any isWord = false := by simpa using hplain
      split
      · rfl
      · rename_i name inner hname
        rw [if_neg (Bool.eq_false_iff.1 (h rfl hword name inner hname))]

theorem segmentsFrom_append (h : ∀ u c v, w = u ++ c :: v → quotedAfter q u = false →
    (u.getLast?.or before).any isWord = false →
      ∀ name inner, splitName? (c :: v ++ rest) = some (name, inner) → known name = false) :
    segmentsFrom known before q (w ++ rest) = w.map .plain ++
      segmentsFrom known (w.getLast?.or before) (quotedAfter q w) rest := by
  induction w generalizing before q with
  | nil => rfl
  | cons c w ih =>
    have htail : ∀ u d v, w = u ++ d :: v → quotedAfter (quotedAfter q [c]) u = false →
        (u.getLast?.or (some c)).any isWord = false → ∀ name inner,
          splitName? (d :: v ++ rest) = some (name, inner) → known name = false := by
      rintro u d v rfl hq hword
      rw [← getLast?_cons_or c u before] at hword
      exact h (c :: u) d v rfl hq hword
    have hstep : segmentsFrom known before q (c :: (w ++ rest)) =
        .plain c :: segmentsFrom known (some c) (quotedAfter q [c]) (w ++ rest) :=
      segmentsFrom_cons (h [] c w rfl)
    rw [List.cons_append, hstep, ih htail, getLast?_cons_or]
    rfl

/-- Where a known function is called, the segment is the call, or it is the last one. -/
theorem segmentsFrom_of_known (hword : before.any isWord = false)
    (hname : splitName? t = some (name, inner)) (hknown : known name = true) :
    segmentsFrom known before false t =
      match splitCall? inner with
      | some (args, rest) => .call name args :: segmentsFrom known (some ')') false rest
      | none => [.unclosed name] := by
  cases t with
  | nil => cases hname
  | cons c r =>
    have hquote : c ≠ '"' := by
      rintro rfl
      cases hname
    rw [segmentsFrom, if_neg hquote, if_neg (by simp [hword])]
    split
    · rename_i hnone
      rw [hname] at hnone
      cases hnone
    · rename_i hsome
      obtain ⟨rfl, rfl⟩ := Prod.mk.inj (Option.some.inj (hname.symm.trans hsome))
      rw [if_pos hknown]
      split <;> simp_all

section Expand

variable {o : Options} {eval : Text → Query Value} {ss ss' : List Segment}

theorem expandSegments_cons (s : Segment) (ss : List Segment) :
    expandSegments o eval (s :: ss) =
      s.expand o eval >>= fun t => expandSegments o eval ss >>= fun u => pure (t ++ u) := rfl

theorem expandSegments_append : expandSegments o eval (ss ++ ss') =
    expandSegments o eval ss >>= fun t => expandSegments o eval ss' >>= fun u =>
      pure (t ++ u) := by
  induction ss with
  | nil => exact (bind_pure _).symm
  | cons s ss ih =>
    rw [List.cons_append, expandSegments_cons, ih, expandSegments_cons]
    simp only [bind_assoc, pure_bind, List.append_assoc]

theorem expandSegments_map_plain (w : Text) (ss : List Segment) :
    expandSegments o eval (w.map .plain ++ ss) =
      expandSegments o eval ss >>= fun u => pure (w ++ u) := by
  induction w with
  | nil => exact (bind_pure _).symm
  | cons c w ih =>
    have hplain : Segment.expand o eval (.plain c) = pure [c] := rfl
    rw [List.map_cons, List.cons_append, expandSegments_cons, ih, hplain, pure_bind, bind_assoc]
    rfl

end Expand

end Spreadsheet.Formula
