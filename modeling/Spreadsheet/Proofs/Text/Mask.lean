import Spreadsheet.Proofs.Text.Nesting

/-!
Masked text. Every character stands in the masked text at the byte where it stood, those inside string
literals as blanks and all others as they are. So the literals of a masked text are where they were, and
masking it again changes nothing.
-/
namespace Spreadsheet.Text

variable {q : Bool} {a b t : Text} {c : Char}

theorem utf8Length_pos (h : t ≠ []) : 0 < utf8Length t := by
  obtain ⟨c, r, rfl⟩ := List.exists_cons_of_ne_nil h
  have := c.utf8Size_pos
  rw [utf8Length_cons]
  omega

/-- What masking leaves of a character that follows a text. -/
def masked (q : Bool) (c : Char) : Text := if c = '"' ∨ q = false then [c] else blanked c

theorem maskFrom_cons (q : Bool) (c : Char) (r : Text) :
    maskFrom q (c :: r) = masked q c ++ maskFrom (quotedAfter q [c]) r := by
  have hquoted : quotedAfter q [c] = if c = '"' then !q else q := rfl
  rw [maskFrom, masked, hquoted]
  by_cases hc : c = '"' <;> cases q <;> simp [hc]

theorem maskFrom_false_cons (hc : c ≠ '"') (t : Text) :
    maskFrom false (c :: t) = c :: maskFrom false t := by
  rw [maskFrom, if_neg hc, if_neg Bool.false_ne_true, List.singleton_append]

theorem maskFrom_append (q : Bool) (a b : Text) :
    maskFrom q (a ++ b) = maskFrom q a ++ maskFrom (quotedAfter q a) b := by
  induction a generalizing q with
  | nil => rfl
  | cons c a ih =>
    rw [List.cons_append, maskFrom_cons, ih, maskFrom_cons, List.append_assoc]
    rfl

theorem maskFrom_of_not_mem (h : '"' ∉ t) :
    maskFrom q t = if q = true then t.flatMap blanked else t := by
  induction t with
  | nil => cases q <;> rfl
  | cons c t ih =>
    rw [List.mem_cons, not_or] at h
    obtain ⟨hc, ht⟩ := h
    rw [maskFrom, if_neg (Ne.symm hc), ih ht]
    cases q <;> simp

theorem quotedAfter_masked (q : Bool) (c : Char) : quotedAfter q (masked q c) = quotedAfter q [c] := by
  unfold masked
  split
  · rfl
  · rename_i h
    rw [not_or] at h
    rw [quotedAfter_of_not_mem (by simp [blanked]), quotedAfter_of_not_mem (by simp [Ne.symm h.1])]

theorem maskFrom_masked (q : Bool) (c : Char) : maskFrom q (masked q c) = masked q c := by
  unfold masked
  split
  · rename_i h
    have hkeep : masked q c = [c] := if_pos h
    rw [maskFrom_cons, hkeep]
    rfl
  · rename_i h
    rw [maskFrom_of_not_mem (by simp [blanked])]
    cases q
    · rfl
    · simp [blanked, List.flatMap_replicate]

theorem maskFrom_maskFrom (q : Bool) (t : Text) : maskFrom q (maskFrom q t) = maskFrom q t := by
  induction t generalizing q with
  | nil => rfl
  | cons c t ih =>
    rw [maskFrom_cons, maskFrom_append, maskFrom_masked, quotedAfter_masked, ih]

theorem mask_mask (t : Text) : mask (mask t) = mask t := maskFrom_maskFrom false t

/-- Where a character stood, the masked text has the character or as many blanks as it had bytes. -/
theorem exists_mask_eq (a : Text) (c : Char) (b : Text) : ∃ a' b',
    utf8Length a' = utf8Length a ∧ mask (a ++ c :: b) = a' ++ masked (quotedAfter false a) c ++ b' := by
  refine ⟨mask a, maskFrom (quotedAfter (quotedAfter false a) [c]) b, utf8Length_mask a, ?_⟩
  rw [mask, maskFrom_append, maskFrom_cons, List.append_assoc]
  rfl

end Spreadsheet.Text
