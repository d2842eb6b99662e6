import Spreadsheet.Proofs.Number.Model

/-!
Rounding of the logical model, against the rational numbers. The bits that shifting leaves behind
tell how far a number lies above the mantissa, so that rounding gives the significand and exponent
in whose interval the number lies. A product or a quotient in the interval of a float is therefore
that float.
-/
namespace Spreadsheet.Number

open Float.Model Float.Model.UnpackedFloat

variable {em : ExtendedMantissa} {acc : Accuracy} {x : ℚ} {m M n : ℕ} {e E t : ℤ} {s : Sign}

section Residue

/-- The mantissa is the whole part of the number, the round bit its first binary place, and the
sticky bit tells whether there are more places. -/
def Describes (em : ExtendedMantissa) (x : ℚ) : Prop :=
  ∃ r : ℚ, 0 ≤ r ∧ r < 1 / 2 ∧ (em.stickyBit = true ↔ r ≠ 0) ∧
    x = em.mantissa + em.roundBit.toNat / 2 + r

theorem Describes.shiftRightOne (h : Describes em x) : Describes em.shiftRightOne (x / 2) := by
  obtain ⟨r, hr, hr', hsticky, rfl⟩ := h
  have hbit : ((em.roundBit.toNat : ℕ) : ℚ) = if em.roundBit then 1 else 0 := by
    cases em.roundBit <;> simp
  have hmantissa : ((em.mantissa % 2 : ℕ) : ℚ) + 2 * ((em.mantissa / 2 : ℕ) : ℚ) = em.mantissa := by
    exact_mod_cast Nat.mod_add_div em.mantissa 2
  have hround : ((em.shiftRightOne.roundBit.toNat : ℕ) : ℚ) = ((em.mantissa % 2 : ℕ) : ℚ) := by
    rcases Nat.mod_two_eq_zero_or_one em.mantissa with h | h <;>
      simp [ExtendedMantissa.shiftRightOne, h]
  refine ⟨(em.roundBit.toNat / 2 + r) / 2, ?_, ?_, ?_, ?_⟩
  · positivity
  · rw [hbit]
    split <;> linarith
  · change (em.roundBit || em.stickyBit) = true ↔ _
    rw [hbit, Bool.or_eq_true, hsticky]
    split
    · exact ⟨fun _ => by positivity, fun _ => .inl ‹_›⟩
    · simp_all
  · rw [hround]
    change _ = ((em.mantissa / 2 : ℕ) : ℚ) + _ + _
    linarith

theorem Describes.shiftRight (h : Describes em x) (k : ℕ) : Describes (em >>> k) (x / 2 ^ k) := by
  change Describes (k.repeat ExtendedMantissa.shiftRightOne em) _
  induction k with
  | zero => simpa [Nat.repeat] using h
  | succ k ih =>
    rw [Nat.repeat, pow_succ, ← div_div]
    exact ih.shiftRightOne

theorem describes_exact (M : ℕ) :
    Describes (ExtendedMantissa.ofMantissaAndAccuracy M .exact) M :=
  ⟨0, le_rfl, by norm_num, by simp [ExtendedMantissa.ofMantissaAndAccuracy],
    by simp [ExtendedMantissa.ofMantissaAndAccuracy]⟩

theorem describes_fraction {num den : ℕ} (h : num < den) (M : ℕ) :
    Describes (ExtendedMantissa.ofMantissaAndAccuracy M (accuracyOfFraction num den))
      (M + num / den) := by
  have hden : (0 : ℚ) < den := by exact_mod_cast Nat.zero_lt_of_lt h
  have hlt : (num : ℚ) / den < 1 := (div_lt_one hden).2 (by exact_mod_cast h)
  by_cases hzero : num = 0
  · simpa [accuracyOfFraction, hzero] using describes_exact M
  have hpos : (0 : ℚ) < num / den := div_pos (by exact_mod_cast Nat.pos_of_ne_zero hzero) hden
  unfold accuracyOfFraction
  rw [if_neg hzero]
  rcases hcompare : compare (2 * num) den with _ | _ | _
  · have hhalf : (num : ℚ) / den < 1 / 2 := by
      rw [div_lt_div_iff₀ hden two_pos, one_mul, mul_comm]
      exact_mod_cast Nat.compare_eq_lt.1 hcompare
    exact ⟨_, hpos.le, hhalf, by simp [ExtendedMantissa.ofMantissaAndAccuracy, hpos.ne'],
      by simp [ExtendedMantissa.ofMantissaAndAccuracy]⟩
  · have hhalf : (num : ℚ) / den = 1 / 2 := by
      rw [div_eq_div_iff hden.ne' two_ne_zero, one_mul, mul_comm]
      exact_mod_cast Nat.compare_eq_eq.1 hcompare
    exact ⟨0, le_rfl, by norm_num, by simp [ExtendedMantissa.ofMantissaAndAccuracy],
      by simp [ExtendedMantissa.ofMantissaAndAccuracy, hhalf]⟩
  · have hhalf : 1 / 2 < (num : ℚ) / den := by
      rw [div_lt_div_iff₀ two_pos hden, one_mul, mul_comm _ (2 : ℚ)]
      exact_mod_cast Nat.compare_eq_gt.1 hcompare
    refine ⟨num / den - 1 / 2, by linarith, by linarith, ?_, ?_⟩
    · have hne : (num : ℚ) / den - 1 / 2 ≠ 0 := by linarith
      simp only [ExtendedMantissa.ofMantissaAndAccuracy, true_iff]
      exact hne
    · simp [ExtendedMantissa.ofMantissaAndAccuracy]

theorem Describes.mantissa_le (h : Describes em x) : (em.mantissa : ℚ) ≤ x := by
  obtain ⟨r, hr, -, -, rfl⟩ := h
  have : (0 : ℚ) ≤ em.roundBit.toNat / 2 := by positivity
  linarith

theorem Describes.lt_mantissa_add_one (h : Describes em x) : x < em.mantissa + 1 := by
  obtain ⟨r, -, hr, -, rfl⟩ := h
  have : (em.roundBit.toNat : ℚ) / 2 ≤ 1 / 2 := by
    cases em.roundBit <;> norm_num
  linarith

/-- Rounding goes at most half a place, and no half place away from an even number. -/
theorem Describes.near_roundedMantissa (h : Describes em x) :
    (em.roundedMantissa - 1 / 2 ≤ x ∧ x ≤ em.roundedMantissa + 1 / 2) ∧
      (em.roundedMantissa % 2 = 1 →
        em.roundedMantissa - 1 / 2 < x ∧ x < em.roundedMantissa + 1 / 2) := by
  obtain ⟨k, round, sticky⟩ := em
  obtain ⟨r, hr, hr', hsticky, rfl⟩ := h
  dsimp only at hsticky ⊢
  cases round with
  | false =>
    have hk : ExtendedMantissa.roundedMantissa ⟨k, false, sticky⟩ = k := by cases sticky <;> rfl
    simp only [hk, Bool.toNat_false, Nat.cast_zero, zero_div, add_zero]
    refine ⟨⟨by linarith, by linarith⟩, fun _ => ⟨by linarith, by linarith⟩⟩
  | true =>
    simp only [Bool.toNat_true, Nat.cast_one]
    cases sticky with
    | true =>
      have hpos : 0 < r := lt_of_le_of_ne hr (Ne.symm (hsticky.1 rfl))
      have hk : ExtendedMantissa.roundedMantissa ⟨k, true, true⟩ = k + 1 := rfl
      simp only [hk, Nat.cast_add, Nat.cast_one]
      refine ⟨⟨by linarith, by linarith⟩, fun _ => ⟨by linarith, by linarith⟩⟩
    | false =>
      obtain rfl : r = 0 := by simpa using hsticky
      have hk : ExtendedMantissa.roundedMantissa ⟨k, true, false⟩ = k + k % 2 := rfl
      rw [hk]
      rcases Nat.mod_two_eq_zero_or_one k with hmod | hmod <;> rw [hmod] <;> push_cast
      · exact ⟨⟨by linarith, by linarith⟩, fun hodd => by omega⟩
      · exact ⟨⟨by linarith, by linarith⟩, fun hodd => by omega⟩

/-- Rounding gives the whole number that is nearest, and of two the even one. -/
theorem Describes.roundedMantissa_eq (h : Describes em x) (hlow : (n : ℚ) - 1 / 2 ≤ x)
    (hhigh : x ≤ n + 1 / 2) (htie : n % 2 = 1 → (n : ℚ) - 1 / 2 < x ∧ x < n + 1 / 2) :
    em.roundedMantissa = n := by
  obtain ⟨⟨hlow', hhigh'⟩, htie'⟩ := h.near_roundedMantissa
  generalize em.roundedMantissa = k at hlow' hhigh' htie' ⊢
  have hk : (k : ℚ) ≤ n + 1 := by linarith
  have hn : (n : ℚ) ≤ k + 1 := by linarith
  norm_cast at hk hn
  rcases lt_trichotomy k n with hlt | heq | hgt
  · obtain rfl : n = k + 1 := by omega
    push_cast at hlow htie
    rcases Nat.mod_two_eq_zero_or_one k with heven | hodd
    · have := (htie (by omega)).1
      linarith
    · have := (htie' hodd).2
      linarith
  · exact heq
  · obtain rfl : k = n + 1 := by omega
    push_cast at hlow' htie'
    rcases Nat.mod_two_eq_zero_or_one n with heven | hodd
    · have := (htie' (by omega)).1
      linarith
    · have := (htie hodd).2
      linarith

end Residue

section Place

/-- The exponent of a number in the standard form. -/
structure Placed (x : ℚ) (t : ℤ) : Prop where
  least : -1074 ≤ t
  lt : x < 2 ^ (t + 53)
  le : t = -1074 ∨ 2 ^ (t + 52) ≤ x

theorem Placed.le_of (h : Placed x t) (he : -1074 ≤ e) (hx : x < 2 ^ (e + 53)) : t ≤ e := by
  rcases h.le with rfl | hle
  · exact he
  · have hlt : (2 : ℚ) ^ (t + 52) < 2 ^ (e + 53) := hle.trans_lt hx
    have := (zpow_lt_zpow_iff_right₀ (by norm_num)).1 hlt
    omega

theorem Placed.unique (h : Placed x t) (h' : Placed x e) : t = e :=
  le_antisymm (h.le_of h'.least h'.lt) (h'.le_of h.least h.lt)

theorem placed_targetExponent (hlow : (M : ℚ) * 2 ^ E ≤ x) (hhigh : x < (M + 1) * 2 ^ E)
    (hE : E ≤ Format.binary64.targetExponent (totalExponent M E)) :
    Placed x (Format.binary64.targetExponent (totalExponent M E)) := by
  have htarget : Format.binary64.targetExponent (totalExponent M E) =
      max (M.log2 + E - 52) (-1074) := by
    change max ((M.log2 : ℤ) + 1 + E - (1 + 52 : ℕ)) (-1074) = _
    omega
  rw [htarget] at hE ⊢
  have htwo : (1 : ℚ) ≤ 2 := by norm_num
  have hsplit (k : ℕ) : (2 : ℚ) ^ ((k : ℤ) + E) = (2 ^ k : ℕ) * 2 ^ E := by
    rw [zpow_add₀ two_ne_zero, zpow_natCast, Nat.cast_pow, Nat.cast_ofNat]
  have hpos : (0 : ℚ) < 2 ^ E := by positivity
  refine ⟨le_max_right _ _, ?_, ?_⟩
  · have hsucc : ((M + 1 : ℕ) : ℚ) ≤ (2 ^ (M.log2 + 1) : ℕ) := Nat.cast_le.2 Nat.lt_log2_self
    calc x < (M + 1) * 2 ^ E := hhigh
      _ ≤ (2 ^ (M.log2 + 1) : ℕ) * 2 ^ E := by
        rw [← Nat.cast_succ]
        exact mul_le_mul_of_nonneg_right hsucc hpos.le
      _ = 2 ^ (((M.log2 + 1 : ℕ) : ℤ) + E) := (hsplit _).symm
      _ ≤ _ := zpow_le_zpow_right₀ htwo (by omega)
  · by_cases hM : M = 0
    · subst M
      left
      simp at hE ⊢
      omega
    · by_cases hleast : (M.log2 : ℤ) + E - 52 ≤ -1074
      · exact .inl (max_eq_right hleast)
      · have hself : ((2 ^ M.log2 : ℕ) : ℚ) ≤ M := Nat.cast_le.2 (Nat.log2_self_le hM)
        right
        rw [max_eq_left (by omega), Int.sub_add_cancel, hsplit]
        exact (mul_le_mul_of_nonneg_right hself hpos.le).trans hlow

end Place

section Nearest

/-- How far below a float, in last places, a number is still nearest to it. The gap below a power of
two is half as wide. -/
def reach (m : ℕ) (e : ℤ) : ℚ := if m = Binary.hiddenBit ∧ -1074 < e then 1 / 4 else 1 / 2

/-- The number rounds to `m * 2 ^ e`. The ends of the interval do if the significand is even. -/
structure Nearest (m : ℕ) (e : ℤ) (x : ℚ) : Prop where
  low : (m - reach m e) * 2 ^ e ≤ x
  high : x ≤ (m + 1 / 2) * 2 ^ e
  inside : m % 2 = 1 → (m - reach m e) * 2 ^ e < x ∧ x < (m + 1 / 2) * 2 ^ e

theorem reach_le (m : ℕ) (e : ℤ) : reach m e ≤ 1 / 2 := by
  unfold reach
  split <;> norm_num

/-- Only below a power of two is the number in a binade other than its float's. -/
theorem Nearest.placed (h : Nearest m e x) (hc : Binary.Canonical m e) (he : -1074 ≤ e) :
    Placed x e ∨ m = Binary.hiddenBit ∧ -1074 < e ∧ Placed x (e - 1) := by
  have hpos : (0 : ℚ) < 2 ^ e := by positivity
  have hsplit (k : ℕ) : (2 : ℚ) ^ (e + k) = 2 ^ k * 2 ^ e := by
    rw [add_comm, zpow_add₀ two_ne_zero, zpow_natCast]
  have hfifty : (2 : ℚ) ^ (e + 52) = Binary.hiddenBit * 2 ^ e := by
    rw [show (52 : ℤ) = (52 : ℕ) from rfl, hsplit]
    norm_num [Binary.hiddenBit]
  have hlt : x < 2 ^ (e + 53) := by
    have hm : (m : ℚ) + 1 ≤ 2 ^ 53 := by exact_mod_cast hc.lt
    calc x ≤ (m + 1 / 2) * 2 ^ e := h.high
      _ < 2 ^ 53 * 2 ^ e := mul_lt_mul_of_pos_right (by linarith) hpos
      _ = 2 ^ (e + 53) := (hsplit 53).symm
  by_cases hleast : e = -1074
  · exact .inl ⟨he, hlt, .inl hleast⟩
  by_cases hbinade : 2 ^ (e + 52) ≤ x
  · exact .inl ⟨he, hlt, .inr hbinade⟩
  have hlead := hc.le.resolve_right hleast
  have hm : m = Binary.hiddenBit := by
    by_contra hne
    have hsucc : (Binary.hiddenBit : ℚ) + 1 ≤ m := by
      exact_mod_cast Nat.lt_of_le_of_ne hlead (Ne.symm hne)
    have hreach := reach_le m e
    refine hbinade (le_trans ?_ h.low)
    rw [hfifty]
    exact mul_le_mul_of_nonneg_right (by linarith) hpos.le
  have hreach : reach m e = 1 / 4 := if_pos ⟨hm, by omega⟩
  refine .inr ⟨hm, by omega, by omega, ?_, .inr ?_⟩
  · rw [show e - 1 + 53 = e + 52 by ring]
    exact not_le.1 hbinade
  · have hhalf : (2 : ℚ) ^ (e - 1 + 52) = Binary.hiddenBit / 2 * 2 ^ e := by
      rw [show e - 1 + 52 = e + 52 - 1 by ring, zpow_sub_one₀ two_ne_zero, hfifty]
      ring
    have hquarter : (Binary.hiddenBit : ℚ) / 2 ≤ Binary.hiddenBit - 1 / 4 := by
      norm_num [Binary.hiddenBit]
    have hlow := h.low
    rw [hreach, hm] at hlow
    rw [hhalf]
    exact (mul_le_mul_of_nonneg_right hquarter hpos.le).trans hlow

theorem mantissa_ofMantissaAndAccuracy (M : ℕ) (acc : Accuracy) :
    (ExtendedMantissa.ofMantissaAndAccuracy M acc).mantissa = M := by
  rcases acc with _ | _ | _ | _ <;> rfl

theorem targetExponent_of_canonical (hc : Binary.Canonical m e) (he : -1074 ≤ e) (hm : 0 < m) :
    Format.binary64.targetExponent (totalExponent m e) = e := by
  have hlog : m.log2 < 53 := (Nat.log2_lt (Nat.ne_of_gt hm)).2 hc.lt
  change max ((m.log2 : ℤ) + 1 + e - (1 + 52 : ℕ)) (-1074) = e
  rcases hc.le with hlead | hleast
  · rw [log2_of_leading hlead hc.lt]
    omega
  · omega

theorem shiftToTargetExponent_of_canonical (hc : Binary.Canonical m e) (he : -1074 ≤ e)
    (hm : 0 < m) : shiftToTargetExponent .binary64 m e .exact = (⟨m, false, false⟩, e) := by
  simp only [shiftToTargetExponent, shiftToExponent, targetExponent_of_canonical hc he hm, sub_self,
    Int.toNat_zero, Nat.cast_zero, add_zero]
  rfl

/-- The first shift leaves the number with its exponent, described by its mantissa and the rest. -/
theorem exists_shift (hx : Describes (ExtendedMantissa.ofMantissaAndAccuracy M acc) (x / 2 ^ E))
    (hE : E ≤ Format.binary64.targetExponent (totalExponent M E)) :
    ∃ em t, shiftToTargetExponent .binary64 M E acc = (em, t) ∧ Placed x t ∧
      Describes em (x / 2 ^ t) := by
  have hpos : (0 : ℚ) < 2 ^ E := by positivity
  have hlow := hx.mantissa_le
  have hhigh := hx.lt_mantissa_add_one
  rw [mantissa_ofMantissaAndAccuracy, le_div_iff₀ hpos] at hlow
  rw [mantissa_ofMantissaAndAccuracy, div_lt_iff₀ hpos] at hhigh
  have hplaced := placed_targetExponent hlow hhigh hE
  generalize ht : Format.binary64.targetExponent (totalExponent M E) = t at hE hplaced
  have hshifted := hx.shiftRight (t - E).toNat
  have hscale : x / 2 ^ E / 2 ^ (t - E).toNat = x / 2 ^ t := by
    rw [div_div, ← zpow_natCast, ← zpow_add₀ two_ne_zero]
    congr 2
    omega
  rw [hscale] at hshifted
  refine ⟨_, t, ?_, hplaced, hshifted⟩
  simp only [shiftToTargetExponent, shiftToExponent, ht]
  congr 1
  omega

theorem roundWithAccuracy_of_shift {em : ExtendedMantissa}
    (hfirst : shiftToTargetExponent .binary64 M E acc = (em, t))
    (hsecond : shiftToTargetExponent .binary64 em.roundedMantissa t .exact =
      (⟨m, false, false⟩, e)) (hm : 0 < m) :
    roundWithAccuracy .binary64 s M E acc = .finite s m e hm := by
  simp only [roundWithAccuracy, hfirst, hsecond]
  rw [dif_neg (Nat.ne_of_gt hm)]

/-- A number described by its mantissa and what is left of it is rounded to its float. -/
theorem roundWithAccuracy_of_nearest (h : Nearest m e x) (hc : Binary.Canonical m e)
    (he : -1074 ≤ e) (hm : 0 < m)
    (hx : Describes (ExtendedMantissa.ofMantissaAndAccuracy M acc) (x / 2 ^ E))
    (hE : E ≤ Format.binary64.targetExponent (totalExponent M E)) :
    roundWithAccuracy .binary64 s M E acc = .finite s m e hm := by
  obtain ⟨em, t, hfirst, hplaced, hshifted⟩ := exists_shift hx hE
  have hrounded {k : ℕ} (hk : em.roundedMantissa = k)
      (hsecond : shiftToTargetExponent .binary64 k t .exact = (⟨m, false, false⟩, e)) :
      roundWithAccuracy .binary64 s M E acc = .finite s m e hm :=
    roundWithAccuracy_of_shift hfirst (hk ▸ hsecond) hm
  have hdiv (a : ℚ) : a * 2 ^ t ≤ x ↔ a ≤ x / 2 ^ t := (le_div_iff₀ (by positivity)).symm
  have hdiv' (a : ℚ) : x ≤ a * 2 ^ t ↔ x / 2 ^ t ≤ a := (div_le_iff₀ (by positivity)).symm
  rcases h.placed hc he with hp | ⟨hlead, hleast, hp⟩
  · obtain rfl := hplaced.unique hp
    have hreach := reach_le m t
    refine hrounded (hshifted.roundedMantissa_eq ?_ ?_ fun hodd => ?_)
      (shiftToTargetExponent_of_canonical hc he hm)
    · exact le_trans (by linarith) ((hdiv _).1 h.low)
    · exact (hdiv' _).1 h.high
    · obtain ⟨h₁, h₂⟩ := h.inside hodd
      rw [← lt_div_iff₀ (by positivity)] at h₁
      rw [← div_lt_iff₀ (by positivity)] at h₂
      exact ⟨by linarith, h₂⟩
  · obtain rfl := hplaced.unique hp
    have htwo : (2 : ℚ) ^ e = 2 * 2 ^ (e - 1) := by
      rw [zpow_sub_one₀ two_ne_zero]
      ring
    have hhalf : reach m e = 1 / 4 := if_pos ⟨hlead, hleast⟩
    have hsecond := shiftToTargetExponent_exact hlead.ge hc.lt he 1
    refine hrounded (k := m * 2 ^ 1) (hshifted.roundedMantissa_eq ?_ ?_ fun hodd => ?_) hsecond
    · have hlow := h.low
      rw [hhalf, htwo, ← mul_assoc, hdiv] at hlow
      push_cast
      linarith
    · have hlt := hp.lt
      rw [add_comm, zpow_add₀ two_ne_zero] at hlt
      have hle := (hdiv' _).1 hlt.le
      rw [hlead]
      norm_num [Binary.hiddenBit] at hle ⊢
      linarith
    · omega

end Nearest

section Operations

variable {m₁ m₂ : ℕ} {e₁ e₂ : ℤ} {h₁ : 0 < m₁} {h₂ : 0 < m₂}

theorem le_targetExponent (hM : E ≤ -1074 ∨ Binary.hiddenBit ≤ M) :
    E ≤ Format.binary64.targetExponent (totalExponent M E) := by
  change E ≤ max ((M.log2 : ℤ) + 1 + E - (1 + 52 : ℕ)) (-1074)
  rcases hM with hleast | hM
  · exact le_max_of_le_right hleast
  · have hne : M ≠ 0 := Nat.ne_of_gt (Nat.lt_of_lt_of_le (by decide) hM)
    have hlog : 52 ≤ M.log2 := (Nat.le_log2 hne).2 hM
    omega

theorem describes_mul (m₁ m₂ : ℕ) (e₁ e₂ : ℤ) :
    Describes (ExtendedMantissa.ofMantissaAndAccuracy (m₁ * m₂) .exact)
      (m₁ * 2 ^ e₁ * (m₂ * 2 ^ e₂) / 2 ^ (e₁ + e₂)) := by
  have hexact := describes_exact (m₁ * m₂)
  have hscale : (m₁ * 2 ^ e₁ * (m₂ * 2 ^ e₂) : ℚ) / 2 ^ (e₁ + e₂) = (m₁ * m₂ : ℕ) := by
    rw [zpow_add₀ two_ne_zero]
    push_cast
    field_simp
  rwa [hscale]

theorem mul_of_nearest (h : Nearest m e (m₁ * 2 ^ e₁ * (m₂ * 2 ^ e₂))) (hc : Binary.Canonical m e)
    (he : -1074 ≤ e) (hm : 0 < m) (hlead : Binary.hiddenBit ≤ m₁ * m₂) :
    UnpackedFloat.mul .binary64 (.finite .positive m₁ e₁ h₁) (.finite .positive m₂ e₂ h₂) =
      .finite .positive m e hm :=
  roundWithAccuracy_of_nearest h hc he hm (describes_mul m₁ m₂ e₁ e₂)
    (le_targetExponent (.inr hlead))

theorem divCore_leading (h₁ : 0 < m₁) (h₂ : 0 < m₂)
    (ht : t ≤ Format.binary64.targetExponent (totalExponent m₁ e₁ - totalExponent m₂ e₂))
    (ht' : t ≤ e₁ - e₂) :
    t ≤ -1074 ∨ Binary.hiddenBit ≤ m₁ <<< (e₁ - e₂ - t).toNat / m₂ := by
  replace ht : t ≤ max (((m₁.log2 : ℤ) + 1 + e₁ - (m₂.log2 + 1 + e₂)) - (1 + 52 : ℕ)) (-1074) := ht
  by_cases hleast : t ≤ -1074
  · exact .inl hleast
  right
  have hself : 2 ^ m₁.log2 ≤ m₁ := Nat.log2_self_le (Nat.ne_of_gt h₁)
  have hsucc : m₂ ≤ 2 ^ (m₂.log2 + 1) := Nat.le_of_lt Nat.lt_log2_self
  rw [Nat.le_div_iff_mul_le h₂, Nat.shiftLeft_eq]
  calc Binary.hiddenBit * m₂ ≤ 2 ^ 52 * 2 ^ (m₂.log2 + 1) := Nat.mul_le_mul_left _ hsucc
    _ = 2 ^ (52 + (m₂.log2 + 1)) := (Nat.pow_add _ _ _).symm
    _ ≤ 2 ^ (m₁.log2 + (e₁ - e₂ - t).toNat) := Nat.pow_le_pow_right two_pos (by omega)
    _ = 2 ^ m₁.log2 * 2 ^ (e₁ - e₂ - t).toNat := Nat.pow_add _ _ _
    _ ≤ m₁ * 2 ^ (e₁ - e₂ - t).toNat := Nat.mul_le_mul_right _ hself

/-- The quotient is described by what the division gives, with enough bits to be rounded. -/
theorem describes_divCore (e₁ e₂ : ℤ) (h₁ : 0 < m₁) (h₂ : 0 < m₂) :
    ∃ M E acc, divCore .binary64 m₁ e₁ m₂ e₂ = (M, E, acc) ∧
      Describes (ExtendedMantissa.ofMantissaAndAccuracy M acc)
        (m₁ * 2 ^ e₁ / (m₂ * 2 ^ e₂) / 2 ^ E) ∧
      E ≤ Format.binary64.targetExponent (totalExponent M E) := by
  refine ⟨_, _, _, rfl, ?_⟩
  generalize htarget : min (e₁ - e₂) (Format.binary64.targetExponent
    (totalExponent m₁ e₁ - totalExponent m₂ e₂)) = t
  have hle : t ≤ e₁ - e₂ := htarget ▸ min_le_left _ _
  have hle' := htarget ▸ min_le_right (e₁ - e₂) (Format.binary64.targetExponent
    (totalExponent m₁ e₁ - totalExponent m₂ e₂))
  constructor
  · have hfraction := describes_fraction (Nat.mod_lt (m₁ <<< (e₁ - e₂ - t).toNat) h₂)
      (m₁ <<< (e₁ - e₂ - t).toNat / m₂)
    have hm₂ : (m₂ : ℚ) ≠ 0 := Nat.cast_ne_zero.2 (Nat.ne_of_gt h₂)
    have hwhole : ((m₁ <<< (e₁ - e₂ - t).toNat / m₂ : ℕ) : ℚ) +
        ((m₁ <<< (e₁ - e₂ - t).toNat % m₂ : ℕ) : ℚ) / m₂ =
          (m₁ <<< (e₁ - e₂ - t).toNat : ℕ) / m₂ := by
      rw [eq_div_iff hm₂, add_mul, div_mul_cancel₀ _ hm₂]
      exact_mod_cast Nat.div_add_mod' _ _
    have hscale : (m₁ * 2 ^ e₁ / (m₂ * 2 ^ e₂) : ℚ) / 2 ^ t =
        (m₁ <<< (e₁ - e₂ - t).toNat : ℕ) / m₂ := by
      have hpow : (2 : ℚ) ^ (e₁ - e₂ - t).toNat = 2 ^ e₁ / 2 ^ e₂ / 2 ^ t := by
        rw [← zpow_natCast, ← zpow_sub₀ two_ne_zero, ← zpow_sub₀ two_ne_zero]
        congr 1
        omega
      rw [Nat.shiftLeft_eq]
      push_cast
      rw [hpow]
      field_simp
    rwa [hscale, ← hwhole]
  · exact le_targetExponent (divCore_leading h₁ h₂ hle' hle)

theorem div_of_nearest (h : Nearest m e (m₁ * 2 ^ e₁ / (m₂ * 2 ^ e₂))) (hc : Binary.Canonical m e)
    (he : -1074 ≤ e) (hm : 0 < m) :
    UnpackedFloat.div .binary64 (.finite .positive m₁ e₁ h₁) (.finite .positive m₂ e₂ h₂) =
      .finite .positive m e hm := by
  obtain ⟨M, E, acc, hcore, hx, hE⟩ := describes_divCore e₁ e₂ h₁ h₂
  simp only [UnpackedFloat.div, hcore]
  exact roundWithAccuracy_of_nearest h hc he hm hx hE

end Operations

end Spreadsheet.Number
