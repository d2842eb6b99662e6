import Mathlib.Algebra.Group.Nat.Defs
import Mathlib.Data.List.Induction
import Mathlib.Data.Nat.Digits.Defs
import Spreadsheet.Number.Reading

/-!
Decimal digits and their value. Zeros in front of digits change no value, zeros behind multiply it;
and every text of digits is the decimal form of its value with zeros in front, unless the value is
zero. Written out in full, a decimal has a digit before its point, if there is a point, and as many
digits behind it as its exponent takes away.
-/
namespace Spreadsheet.Number

variable {t : Text} {c : Char} {n : Nat}

theorem isDigit_of_mem_zeros (h : c ∈ zeros n) : c.isDigit = true := by
  rw [List.eq_of_mem_replicate h]
  rfl

theorem digitsValue_zeros_append (n : Nat) (t : Text) :
    digitsValue (zeros n ++ t) = digitsValue t := by
  rw [digitsValue, Nat.ofDigitChars_append, zeros, Nat.ofDigitChars_replicate_zero, Nat.mul_zero]
  rfl

theorem digitsValue_append_zeros (n : Nat) (t : Text) :
    digitsValue (t ++ zeros n) = digitsValue t * 10 ^ n := by
  rw [digitsValue, Nat.ofDigitChars_append, zeros, Nat.ofDigitChars_replicate_zero, Nat.mul_comm]
  rfl

theorem digitsValue_natText (n : Nat) : digitsValue (natText n) = n := ofDigitChars_natText n

/-- The value of a digit. -/
def digitValue (c : Char) : Nat := c.toNat - '0'.toNat

theorem digitsValue_concat (t : Text) (c : Char) :
    digitsValue (t ++ [c]) = 10 * digitsValue t + digitValue c := by
  rw [digitsValue, Nat.ofDigitChars_append]
  rfl

/-- The digits count from the last one on. -/
theorem digitsValue_eq_ofDigits (t : Text) :
    digitsValue t = Nat.ofDigits 10 (t.reverse.map digitValue) := by
  induction t using List.reverseRecOn with
  | nil => rfl
  | append_singleton t c ih =>
    rw [digitsValue_concat, List.reverse_concat, List.map_cons, Nat.ofDigits_cons, ← ih,
      Nat.add_comm]

theorem toNat_of_isDigit (h : c.isDigit = true) : '0'.toNat ≤ c.toNat ∧ c.toNat ≤ '9'.toNat := by
  simp only [Char.isDigit, Bool.and_eq_true, decide_eq_true_eq] at h
  exact ⟨UInt32.le_iff_toNat_le.1 h.1, UInt32.le_iff_toNat_le.1 h.2⟩

theorem digitValue_of_isDigit (h : c.isDigit = true) :
    digitValue c < 10 ∧ Nat.digitChar (digitValue c) = c := by
  obtain ⟨hlo, hhi⟩ := toNat_of_isDigit h
  have hzero : '0'.toNat = 48 := rfl
  have hnine : '9'.toNat = 57 := rfl
  have hlt : digitValue c < 10 := by
    unfold digitValue
    omega
  refine ⟨hlt, Char.toNat_inj.1 ?_⟩
  rw [Nat.toNat_digitChar_of_lt_ten hlt, digitValue]
  omega

theorem eq_zeros_of_digitsValue (ht : ∀ c ∈ t, c.isDigit = true) (h : digitsValue t = 0) :
    t = zeros t.length := by
  refine List.eq_replicate_iff.2 ⟨rfl, ?_⟩
  induction t using List.reverseRecOn with
  | nil => exact nofun
  | append_singleton t c ih =>
    rw [digitsValue_concat] at h
    have hc := digitValue_of_isDigit (ht c (by simp))
    have hzero : digitValue c = 0 := by omega
    intro d hd
    rcases List.mem_append.1 hd with hd | hd
    · exact ih (fun e he => ht e (by simp [he])) (by omega) d hd
    · rw [List.mem_singleton.1 hd, ← hc.2, hzero]
      rfl

/-- Digits with a value are its decimal form behind zeros. -/
theorem exists_zeros (ht : ∀ c ∈ t, c.isDigit = true) (h : digitsValue t ≠ 0) :
    ∃ n, t = zeros n ++ natText (digitsValue t) := by
  induction t using List.reverseRecOn with
  | nil => exact absurd rfl h
  | append_singleton t c ih =>
    obtain ⟨hlt, hc⟩ := digitValue_of_isDigit (ht c (by simp))
    have ht' : ∀ d ∈ t, d.isDigit = true := fun d hd => ht d (by simp [hd])
    rw [digitsValue_concat] at h ⊢
    by_cases hzero : digitsValue t = 0
    · refine ⟨t.length, ?_⟩
      rw [hzero, Nat.mul_zero, Nat.zero_add, natText, Nat.toDigits_of_lt_base hlt, hc,
        ← eq_zeros_of_digitsValue ht' hzero]
    · obtain ⟨n, hn⟩ := ih ht' hzero
      have hdiv : (10 * digitsValue t + digitValue c) / 10 = digitsValue t := by omega
      have hmod : (10 * digitsValue t + digitValue c) % 10 = digitValue c := by omega
      refine ⟨n, ?_⟩
      rw [natText, Nat.toDigits_eq_if (by decide), if_neg (by omega), hdiv, hmod, hc,
        ← List.append_assoc, ← natText, ← hn]

/-- The text has the digits of a whole number, or a point among the digits of the coefficient. -/
inductive Digits.InFull (d : Digits) : Text → Prop
  | whole {ws : Text} (hne : ws ≠ []) (hws : ∀ c ∈ ws, c.isDigit = true) (hexp : 0 ≤ d.exponent)
      (hvalue : digitsValue ws = d.coefficient * 10 ^ d.exponent.toNat) : InFull d ws
  | point {ws fs : Text} (hne : ws ≠ []) (hws : ∀ c ∈ ws, c.isDigit = true)
      (hfs : ∀ c ∈ fs, c.isDigit = true) (hexp : d.exponent = -fs.length)
      (hvalue : digitsValue (ws ++ fs) = d.coefficient) : InFull d (ws ++ '.' :: fs)

theorem Digits.inFull_positional (d : Digits) : d.InFull (d.positional false) := by
  have hcoefficient : ∀ c ∈ natText d.coefficient, c.isDigit = true := fun _ =>
    isDigit_of_mem_natText
  have hzeros : ∀ n, ∀ c ∈ zeros n, c.isDigit = true := fun _ _ => isDigit_of_mem_zeros
  simp only [positional]
  split
  · rename_i hexp
    rw [if_neg Bool.false_ne_true, List.append_nil]
    refine .whole ?_ (List.forall_mem_append.2 ⟨hcoefficient, hzeros _⟩) hexp ?_
    · exact List.append_ne_nil_of_left_ne_nil (natText_ne_nil _) _
    · rw [digitsValue_append_zeros, digitsValue_natText]
  · generalize hpadded : zeros ((-d.exponent).toNat + 1 - (natText d.coefficient).length) ++
      natText d.coefficient = ds
    have hds : ∀ c ∈ ds, c.isDigit = true :=
      hpadded ▸ List.forall_mem_append.2 ⟨hzeros _, hcoefficient⟩
    have hlength : (-d.exponent).toNat < ds.length := by
      rw [← hpadded, List.length_append, zeros, List.length_replicate]
      omega
    refine .point ?_ (fun c hc => hds c (List.mem_of_mem_take hc))
      (fun c hc => hds c (List.mem_of_mem_drop hc)) ?_ ?_
    · apply List.ne_nil_of_length_pos
      rw [List.length_take]
      omega
    · rw [List.length_drop]
      omega
    · rw [List.take_append_drop, ← hpadded, digitsValue_zeros_append, digitsValue_natText]

end Spreadsheet.Number
