import Spreadsheet.Proofs.Number.Reading

/-!
The quotient of a finite float and a count is finite. Rounding does not pass a float that is a bound
of what is rounded, and a count becomes a float that is one or more, if not infinite, so that
dividing by it leads to no greater exponent.
-/
namespace Spreadsheet.Number

open Float.Model Float.Model.UnpackedFloat

variable {em : ExtendedMantissa} {acc : Accuracy} {x : ℚ} {m M n m₁ : ℕ} {e E t e₁ : ℤ} {s : Sign}

section Rounding

theorem Describes.roundedMantissa_le (h : Describes em x) (hx : x ≤ n) :
    em.roundedMantissa ≤ n := by
  obtain ⟨⟨hlow, -⟩, -⟩ := h.near_roundedMantissa
  have hlt : (em.roundedMantissa : ℚ) < n + 1 := by linarith
  exact Nat.le_of_lt_succ (by exact_mod_cast hlt)

theorem mantissa_le_roundedMantissa (em : ExtendedMantissa) :
    em.mantissa ≤ em.roundedMantissa := by
  obtain ⟨k, round, sticky⟩ := em
  cases round <;> cases sticky
  · exact Nat.le_refl k
  · exact Nat.le_refl k
  · exact Nat.le_add_right k (k % 2)
  · exact Nat.le_succ k

/-- A significand does not get longer than by a carry. -/
theorem Placed.roundedMantissa_le (h : Placed x t) (hem : Describes em (x / 2 ^ t)) :
    em.roundedMantissa ≤ 2 * Binary.hiddenBit := by
  refine hem.roundedMantissa_le ?_
  rw [div_le_iff₀ (by positivity)]
  refine h.lt.le.trans_eq ?_
  rw [add_comm, zpow_add₀ two_ne_zero]
  norm_num [Binary.hiddenBit]

theorem Placed.le_roundedMantissa (h : Placed x t) (hem : Describes em (x / 2 ^ t)) :
    Binary.hiddenBit ≤ em.roundedMantissa ∨ t = -1074 := by
  rcases h.le with hleast | hlead
  · exact .inr hleast
  have hlt : (Binary.hiddenBit : ℚ) < em.mantissa + 1 := by
    refine lt_of_le_of_lt ?_ hem.lt_mantissa_add_one
    rw [le_div_iff₀ (by positivity)]
    refine le_trans (le_of_eq ?_) hlead
    rw [add_comm, zpow_add₀ two_ne_zero]
    norm_num [Binary.hiddenBit]
  have hle : Binary.hiddenBit ≤ em.mantissa := Nat.le_of_lt_succ (by exact_mod_cast hlt)
  exact .inl (hle.trans (mantissa_le_roundedMantissa em))

theorem shiftToTargetExponent_zero (t : ℤ) :
    (shiftToTargetExponent .binary64 0 t .exact).1.mantissa = 0 := by
  have hshift (k : ℕ) : ExtendedMantissa.mk 0 false false >>> k = ⟨0, false, false⟩ := by
    simpa using shiftRight_exact 0 k
  simp only [shiftToTargetExponent, shiftToExponent, ExtendedMantissa.ofMantissaAndAccuracy, hshift]

/-- A number is rounded to a whole significand at its own exponent, or carried to the next. -/
theorem exists_round (hx : Describes (ExtendedMantissa.ofMantissaAndAccuracy M acc) (x / 2 ^ E))
    (hE : E ≤ Format.binary64.targetExponent (totalExponent M E)) :
    ∃ em t, Placed x t ∧ Describes em (x / 2 ^ t) ∧
      (t = -1074 ∧ roundWithAccuracy .binary64 s M E acc = .zero s ∨
        ∃ m e, ∃ hm : 0 < m, roundWithAccuracy .binary64 s M E acc = .finite s m e hm ∧
          Binary.Canonical m e ∧
            (e = t ∨ e = t + 1 ∧ em.roundedMantissa = 2 * Binary.hiddenBit)) := by
  obtain ⟨em, t, hfirst, hplaced, hem⟩ := exists_shift hx hE
  refine ⟨em, t, hplaced, hem, ?_⟩
  have hleast := hplaced.le_roundedMantissa hem
  by_cases hzero : em.roundedMantissa = 0
  · have hlow : ¬Binary.hiddenBit ≤ em.roundedMantissa := by
      rw [hzero]
      decide
    refine .inl ⟨hleast.resolve_left hlow, ?_⟩
    simp only [roundWithAccuracy, hfirst, hzero]
    rw [dif_pos (shiftToTargetExponent_zero t)]
  right
  rcases Nat.lt_or_eq_of_le (hplaced.roundedMantissa_le hem) with hlt | heq
  · have hc : Binary.Canonical em.roundedMantissa t := ⟨hlt, hleast⟩
    have hk := Nat.pos_of_ne_zero hzero
    have hshift := shiftToTargetExponent_of_canonical hc hplaced.least hk
    exact ⟨_, t, hk, roundWithAccuracy_of_shift hfirst hshift hk, hc, .inl rfl⟩
  · have hc : Binary.Canonical Binary.hiddenBit (t + 1) := ⟨by decide, .inl le_rfl⟩
    have hnext : -1074 ≤ t + 1 := by
      have := hplaced.least
      omega
    have hshift := shiftToTargetExponent_exact le_rfl hc.lt hnext 1
    refine ⟨_, t + 1, by decide, roundWithAccuracy_of_shift hfirst ?_ _, hc, .inr ⟨rfl, heq⟩⟩
    rw [heq, mul_comm]
    simpa using hshift

/-- Every number has a float it is nearest to, at its own exponent or one above. -/
theorem Placed.exists_nearest (h : Placed x t) (hem : Describes em (x / 2 ^ t)) :
    ∃ m e, Binary.Canonical m e ∧ Nearest m e x ∧ t ≤ e ∧ e ≤ t + 1 := by
  obtain ⟨⟨hlow, hhigh⟩, hodd⟩ := hem.near_roundedMantissa
  have hpos : (0 : ℚ) < 2 ^ t := by positivity
  rw [le_div_iff₀ hpos] at hlow
  rw [div_le_iff₀ hpos] at hhigh
  rw [lt_div_iff₀ hpos, div_lt_iff₀ hpos] at hodd
  rcases Nat.lt_or_eq_of_le (h.roundedMantissa_le hem) with hlt | heq
  · refine ⟨_, t, ⟨hlt, h.le_roundedMantissa hem⟩, ?_, le_rfl, by omega⟩
    by_cases hlead : em.roundedMantissa = Binary.hiddenBit ∧ -1074 < t
    · have hleast : (2 : ℚ) ^ (t + 52) ≤ x := h.le.resolve_left (by omega)
      have hbound : (Binary.hiddenBit : ℚ) * 2 ^ t ≤ x := by
        refine le_trans (le_of_eq ?_) hleast
        rw [add_comm, zpow_add₀ two_ne_zero]
        norm_num [Binary.hiddenBit]
      have heven : ¬em.roundedMantissa % 2 = 1 := by
        rw [hlead.1]
        decide
      refine ⟨?_, hhigh, fun h => absurd h heven⟩
      rw [reach, if_pos hlead, hlead.1]
      linarith
    · have hreach : reach em.roundedMantissa t = 1 / 2 := if_neg hlead
      exact ⟨hreach ▸ hlow, hhigh, hreach ▸ hodd⟩
  · have hleast := h.least
    have hreach : reach Binary.hiddenBit (t + 1) = 1 / 4 := if_pos ⟨rfl, by omega⟩
    have heven : ¬Binary.hiddenBit % 2 = 1 := by decide
    have htwo : (2 : ℚ) ^ (t + 1) = 2 * 2 ^ t := by rw [zpow_add_one₀ two_ne_zero, mul_comm]
    rw [heq, Nat.cast_mul, Nat.cast_two] at hlow hhigh
    refine ⟨_, t + 1, ⟨by decide, .inl le_rfl⟩, ⟨?_, ?_, fun h => absurd h heven⟩, by omega, le_rfl⟩
    · rw [hreach, htwo]
      linarith
    · rw [htwo]
      linarith

/-- What is rounded below a float has no greater exponent. -/
theorem exponent_round_le
    (hx : Describes (ExtendedMantissa.ofMantissaAndAccuracy M acc) (x / 2 ^ E))
    (hE : E ≤ Format.binary64.targetExponent (totalExponent M E)) (hc : Binary.Canonical m₁ e₁)
    (he : -1074 ≤ e₁) (hle : x ≤ m₁ * 2 ^ e₁) :
    roundWithAccuracy .binary64 s M E acc = .zero s ∨
      ∃ m e, ∃ hm : 0 < m, roundWithAccuracy .binary64 s M E acc = .finite s m e hm ∧
        Binary.Canonical m e ∧ -1074 ≤ e ∧ e ≤ e₁ := by
  obtain ⟨em, t, hplaced, hem, ⟨-, hzero⟩ | ⟨m, e, hm, hround, hcanonical, hexp⟩⟩ :=
    exists_round (s := s) hx hE
  · exact .inl hzero
  have hpos : (0 : ℚ) < 2 ^ e₁ := by positivity
  have hm₁ : (m₁ : ℚ) < 2 ^ 53 := by exact_mod_cast hc.lt
  have htop : t ≤ e₁ := by
    refine hplaced.le_of he (hle.trans_lt ?_)
    rw [add_comm, zpow_add₀ two_ne_zero]
    exact mul_lt_mul_of_pos_right hm₁ hpos
  have hleast := hplaced.least
  refine .inr ⟨m, e, hm, hround, hcanonical, ?_⟩
  rcases hexp with rfl | ⟨rfl, hcarry⟩
  · exact ⟨hleast, htop⟩
  · refine ⟨by omega, ?_⟩
    by_contra hlt
    obtain rfl : t = e₁ := by omega
    have hbound := hem.roundedMantissa_le ((div_le_iff₀ hpos).2 hle)
    have hm₁ := hc.lt
    omega

end Rounding

section Quotient

variable {y : Float} {m₂ : ℕ} {e₂ : ℤ} {h₁ : 0 < m₁} {h₂ : 0 < m₂}

/-- A float that is one or more, or infinite. -/
def AtLeastOne (u : UnpackedFloat) : Prop :=
  u = .infinity .positive ∨ ∃ m e, ∃ hm : 0 < m, u = .finite .positive m e hm ∧ 1 ≤ (m : ℚ) * 2 ^ e

theorem one_le_of_leading (hm : Binary.hiddenBit ≤ m) (he : -52 ≤ e) : 1 ≤ (m : ℚ) * 2 ^ e := by
  have hlead : (2 : ℚ) ^ (52 : ℤ) ≤ m := by
    rw [show (2 : ℚ) ^ (52 : ℤ) = Binary.hiddenBit by norm_num [Binary.hiddenBit]]
    exact_mod_cast hm
  calc (1 : ℚ) = 2 ^ (52 : ℤ) * 2 ^ (-52 : ℤ) := by norm_num
    _ ≤ m * 2 ^ e :=
      mul_le_mul hlead (zpow_le_zpow_right₀ (by norm_num) he) (by positivity) (by positivity)

theorem atLeastOne_round (hx : Describes (ExtendedMantissa.ofMantissaAndAccuracy M acc) (x / 2 ^ E))
    (hE : E ≤ Format.binary64.targetExponent (totalExponent M E)) (hone : 1 ≤ x) :
    AtLeastOne (Float.Model.pack (roundWithAccuracy .binary64 .positive M E acc)).unpack := by
  obtain ⟨em, t, hplaced, -, hround⟩ := exists_round (s := .positive) hx hE
  have ht : -52 ≤ t := by
    have hlt : (2 : ℚ) ^ (0 : ℤ) < 2 ^ (t + 53) := lt_of_le_of_lt (by simpa using hone) hplaced.lt
    have := (zpow_lt_zpow_iff_right₀ (by norm_num)).1 hlt
    omega
  rcases hround with ⟨hleast, -⟩ | ⟨m, e, hm, hround, hc, hexp⟩
  · omega
  have he : -52 ≤ e := by omega
  rw [hround]
  by_cases hlarge : 971 < e
  · exact .inl (unpack_pack_large hm hlarge)
  · refine .inr ⟨m, e, hm, unpack_pack_of_canonical hc (by omega) (by omega) hm, ?_⟩
    exact one_le_of_leading (hc.le.resolve_right (by omega)) he

theorem atLeastOne_mul (hlead : Binary.hiddenBit ≤ m₁ * m₂)
    (hone : 1 ≤ (m₁ : ℚ) * 2 ^ e₁ * (m₂ * 2 ^ e₂)) :
    AtLeastOne (Float.Model.pack (UnpackedFloat.mul .binary64 (.finite .positive m₁ e₁ h₁)
      (.finite .positive m₂ e₂ h₂))).unpack :=
  atLeastOne_round (describes_mul m₁ m₂ e₁ e₂) (le_targetExponent (.inr hlead)) hone

theorem atLeastOne_ofNat (hn : 0 < n) : AtLeastOne (Float.ofNat n).toModel.unpack := by
  by_cases hsmall : n < 2 ^ 53
  · refine .inr ⟨_, _, _, unpack_ofNat hn hsmall, one_le_of_leading (leading_bounds hn hsmall).1 ?_⟩
    rw [leadingExponent]
    omega
  · have hscientific : Float.ofNat n =
        .ofModel (Float.Model.pack (UnpackedFloat.ofScientific .binary64 n (0 : ℕ))) := by
      change Float.ofScientific n false 0 = _
      unfold Float.ofScientific
      rw [dif_neg fun h => hsmall h.1]
      rfl
    obtain ⟨hmantissa, hpower, hmul⟩ := ofScientific_eq_mul hn (show 0 ≤ 400 by decide)
    have hunpack : (Float.ofNat n).toModel.unpack =
        (Float.Model.pack (UnpackedFloat.ofScientific .binary64 n (0 : ℕ))).unpack := by
      rw [hscientific]
    rw [hunpack, hmul]
    refine atLeastOne_mul (hiddenBit_le_shifted hn 0) ?_
    rw [shifted_mul, pow_zero, mul_one]
    exact_mod_cast hn

theorem isFinite_div {x : Float} (hx : x.isFinite = true) (hy : AtLeastOne y.toModel.unpack) :
    (x / y).isFinite = true := by
  have hzero (s : Sign) : (Float.Model.pack (.zero s)).unpack.isFinite = true := by
    cases s <;> rfl
  obtain ⟨s, m₁, e₁, hfinite⟩ := Binary.exists_finite hx
  obtain ⟨hleast, hmost⟩ := Binary.exponent_ofBits hfinite
  have hunpack : x.toModel.unpack = Binary.unpacked (.finite s m₁ e₁) := by
    rw [Binary.unpack_toModel, hfinite]
  change (Float.Model.pack (UnpackedFloat.div .binary64 x.toModel.unpack
    y.toModel.unpack)).unpack.isFinite = true
  rw [hunpack, Binary.unpacked]
  split
  · obtain hy | ⟨m₂, e₂, h₂, hy, -⟩ := hy <;>
    · rw [hy]
      exact hzero _
  rename_i hm₁
  obtain hy | ⟨m₂, e₂, h₂, hy, hone⟩ := hy
  · rw [hy]
    exact hzero _
  · obtain ⟨M, E, acc, hcore, hx, hE⟩ := describes_divCore e₁ e₂ (Nat.pos_of_ne_zero hm₁) h₂
    have hle : (m₁ : ℚ) * 2 ^ e₁ / (m₂ * 2 ^ e₂) ≤ m₁ * 2 ^ e₁ := div_le_self (by positivity) hone
    rw [hy]
    simp only [UnpackedFloat.div, hcore]
    rcases exponent_round_le (s := Binary.sign s / .positive) hx hE
      (Binary.canonical_ofBits hfinite) hleast hle with hround | ⟨m, e, hm, hround, hc, hlow, hhigh⟩
    · rw [hround]
      exact hzero _
    · rw [hround, unpack_pack_of_canonical hc hlow (hhigh.trans hmost) hm]
      rfl

theorem isFinite_div_ofNat {x : Float} (hx : x.isFinite = true) (hn : 0 < n) :
    (x / Float.ofNat n).isFinite = true :=
  isFinite_div hx (atLeastOne_ofNat hn)

end Quotient

end Spreadsheet.Number
