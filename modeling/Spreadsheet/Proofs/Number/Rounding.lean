import Spreadsheet.Number.Rounding
import Spreadsheet.Proofs.Number.Decimal
import Spreadsheet.Proofs.Number.Quotient
import Spreadsheet.Proofs.Number.RoundTrip

/-!
Rounding to counts of places beyond all digits of a float. Far to the left of the point, the power of
ten is held at the largest that is a float, and half of that power is what a number has to reach not
to become zero. Far to the right, a number becomes the float nearest to its decimal, which is not
always the number, and a number too large for a decimal overflows.
-/
namespace Spreadsheet.Number

open Float.Model Float.Model.UnpackedFloat

variable {x y : Float} {s : Bool} {m n : ℕ} {e : ℤ}

section Left

/-- The power of ten that a number is divided by at most, as it comes out of repeated squaring. -/
def largestDivisor : ℚ := (0x11ccf385ebc8a3 : ℕ) * 2 ^ (971 : ℤ)

theorem ofFloat_largest :
    Binary.ofFloat (powerOfTen largestPower) = .finite false 0x11ccf385ebc8a3 971 := by
  decide +kernel

theorem unpack_of_finite (hx : Binary.ofFloat x = .finite s m e) (hm : 0 < m) :
    x.toModel.unpack = .finite (Binary.sign s) m e hm := by
  rw [Binary.unpack_toModel, hx, Binary.unpacked, dif_neg (Nat.ne_of_gt hm)]

theorem sign_div_false (s : Bool) : Binary.sign s / Binary.sign false = Binary.sign s := by
  cases s <;> rfl

theorem sign_mul_false (s : Bool) : Binary.sign s * Binary.sign false = Binary.sign s := by
  cases s <;> rfl

theorem exists_div_largest (hx : Binary.ofFloat x = .finite s m e) (hm : 0 < m) :
    ∃ M E acc, (x / powerOfTen largestPower).toModel.unpack =
        (Float.Model.pack (roundWithAccuracy .binary64 (Binary.sign s) M E acc)).unpack ∧
      Describes (ExtendedMantissa.ofMantissaAndAccuracy M acc) (m * 2 ^ e / largestDivisor / 2 ^ E) ∧
      E ≤ Format.binary64.targetExponent (totalExponent M E) := by
  have hpower := unpack_of_finite ofFloat_largest (by decide)
  obtain ⟨M, E, acc, hcore, hdescribes, hE⟩ :=
    describes_divCore e 971 hm (show 0 < 0x11ccf385ebc8a3 by decide)
  refine ⟨M, E, acc, ?_, hdescribes, hE⟩
  change (Float.Model.pack (UnpackedFloat.div .binary64 x.toModel.unpack
    (powerOfTen largestPower).toModel.unpack)).unpack = _
  rw [unpack_of_finite hx hm, hpower]
  simp only [UnpackedFloat.div, hcore, sign_div_false]

theorem roundHalf_of_lt (hy : Binary.ofFloat y = .finite s m e) (he : e ≤ -54)
    (hm : m < 2 * Binary.hiddenBit) : roundHalf y = signed s (0 : ℕ).toUInt64.toFloat := by
  obtain ⟨k, hk⟩ : ∃ k, (-e).toNat = 54 + k := ⟨(-e).toNat - 54, by omega⟩
  have hunit : 2 ^ 54 ≤ twoTo (54 + k) := Nat.pow_le_pow_right two_pos (by omega)
  have hbit : Binary.hiddenBit = 2 ^ 52 := rfl
  have hwhole : m / twoTo (54 + k) = 0 := Nat.div_eq_of_lt (by omega)
  have hrest : m % twoTo (54 + k) = m := Nat.mod_eq_of_lt (by omega)
  have hnearest : Cut.nearest ⟨s, m / twoTo (54 + k), m % twoTo (54 + k), twoTo (54 + k)⟩ = 0 := by
    simp only [Cut.nearest, hwhole, hrest]
    exact if_neg (by omega)
  simp only [roundHalf, toWhole, hy, if_neg (show ¬0 ≤ e by omega), hk, hnearest]

theorem exists_roundHalf (hy : Binary.ofFloat y = .finite s m e) (he : -53 ≤ e) (he' : e ≤ -51)
    (hlead : Binary.hiddenBit ≤ m) (hm : m < 2 * Binary.hiddenBit) :
    ∃ n, 0 < n ∧ n ≤ 4 ∧ roundHalf y = signed s n.toUInt64.toFloat := by
  have hbit : Binary.hiddenBit = 2 ^ 52 := rfl
  have hunit : 2 ^ 51 ≤ twoTo (-e).toNat ∧ twoTo (-e).toNat ≤ 2 ^ 53 :=
    ⟨Nat.pow_le_pow_right two_pos (by omega), Nat.pow_le_pow_right two_pos (by omega)⟩
  generalize hround : twoTo (-e).toNat = unit at hunit
  refine ⟨Cut.nearest ⟨s, m / unit, m % unit, unit⟩, ?_, ?_, ?_⟩
  · simp only [Cut.nearest]
    rcases Nat.lt_or_ge m unit with hlt | hge
    · rw [Nat.mod_eq_of_lt hlt, if_pos (by omega)]
      exact Nat.succ_pos _
    · have hwhole : 0 < m / unit := Nat.div_pos hge (by omega)
      split <;> omega
  · have hwhole : m / unit < 4 := Nat.div_lt_of_lt_mul (by omega)
    simp only [Cut.nearest]
    split <;> omega
  · simp only [roundHalf, toWhole, hy, if_neg (show ¬0 ≤ e by omega), hround]

theorem mul_largest : ∀ s, ∀ n ≤ 4, Binary.ofFloat (signed s n.toUInt64.toFloat *
    powerOfTen largestPower) = .finite s 0 (-1074) ↔ n = 0 := by
  decide +kernel

theorem roundByDivision_largest (h : roundHalf (x / powerOfTen largestPower) =
    signed s n.toUInt64.toFloat) (hn : n ≤ 4) :
    Binary.ofFloat (roundByDivision x largestPower) = .finite s 0 (-1074) ↔ n = 0 := by
  rw [roundByDivision, h]
  exact mul_largest s n hn

theorem largestDivisor_pos : 0 < largestDivisor := by
  rw [largestDivisor]
  positivity

/-- A float below half of the largest power is a last place below it. -/
theorem le_of_two_mul_lt (hc : Binary.Canonical m e) (he : e ≤ 971)
    (h : 2 * ((m : ℚ) * 2 ^ e) < largestDivisor) :
    (m : ℚ) * 2 ^ e ≤ 0x11ccf385ebc8a2 * 2 ^ (970 : ℤ) := by
  have htwo : (2 : ℚ) ^ (971 : ℤ) = 2 * 2 ^ (970 : ℤ) := zpow_one_add₀ two_ne_zero 970
  have hpos : (0 : ℚ) < 2 ^ (970 : ℤ) := by positivity
  rw [largestDivisor, htwo] at h
  rcases (by omega : e ≤ 969 ∨ e = 970 ∨ e = 971) with hsmall | rfl | rfl
  · have hm : (m : ℚ) ≤ 2 * Binary.hiddenBit := by exact_mod_cast hc.lt.le
    have hpow : (2 : ℚ) ^ e ≤ 2 ^ (969 : ℤ) := zpow_le_zpow_right₀ (by norm_num) hsmall
    have hhalf : (2 : ℚ) ^ (970 : ℤ) = 2 * 2 ^ (969 : ℤ) := zpow_one_add₀ two_ne_zero 969
    calc (m : ℚ) * 2 ^ e ≤ 2 * Binary.hiddenBit * 2 ^ (969 : ℤ) :=
          mul_le_mul hm hpow (by positivity) (by norm_num)
      _ = Binary.hiddenBit * 2 ^ (970 : ℤ) := by
        rw [hhalf]
        ring
      _ ≤ 0x11ccf385ebc8a2 * 2 ^ (970 : ℤ) :=
        mul_le_mul_of_nonneg_right (by norm_num [Binary.hiddenBit]) hpos.le
  · have hm : (m : ℚ) < (0x11ccf385ebc8a3 : ℕ) := by
      refine lt_of_mul_lt_mul_right ?_ hpos.le
      linarith
    have hm : m ≤ 0x11ccf385ebc8a2 := Nat.le_of_lt_succ (by exact_mod_cast hm)
    exact mul_le_mul_of_nonneg_right (by exact_mod_cast hm) hpos.le
  · have hlead : 2 ^ 52 ≤ m := hc.le.resolve_right (by decide)
    have hm : 2 * (m : ℚ) < (0x11ccf385ebc8a3 : ℕ) := by
      refine lt_of_mul_lt_mul_right ?_ hpos.le
      rw [htwo] at h
      linarith
    have hm : 2 * m < 0x11ccf385ebc8a3 := by exact_mod_cast hm
    omega

theorem quotient_le (hc : Binary.Canonical m e) (he : e ≤ 971)
    (h : 2 * ((m : ℚ) * 2 ^ e) < largestDivisor) :
    (m : ℚ) * 2 ^ e / largestDivisor ≤ (2 * Binary.hiddenBit - 1 : ℕ) * 2 ^ (-54 : ℤ) := by
  have htwo : (2 : ℚ) ^ (971 : ℤ) = 2 * 2 ^ (970 : ℤ) := zpow_one_add₀ two_ne_zero 970
  have hbound := le_of_two_mul_lt hc he h
  have hpow : (0 : ℚ) < 2 ^ (970 : ℤ) := by positivity
  rw [div_le_iff₀ largestDivisor_pos, largestDivisor, htwo]
  generalize (2 : ℚ) ^ (970 : ℤ) = p at hbound hpow ⊢
  norm_num [Binary.hiddenBit]
  linarith

theorem quotient_lt_two (hc : Binary.Canonical m e) (he : e ≤ 971) :
    (m : ℚ) * 2 ^ e / largestDivisor < 2 := by
  have hm : (m : ℚ) < 2 * Binary.hiddenBit := by exact_mod_cast hc.lt
  have hpow : (2 : ℚ) ^ e ≤ 2 ^ (971 : ℤ) := zpow_le_zpow_right₀ (by norm_num) he
  rw [div_lt_iff₀ largestDivisor_pos, largestDivisor, ← mul_assoc]
  have hlead : (2 * Binary.hiddenBit : ℚ) < 2 * (0x11ccf385ebc8a3 : ℕ) := by
    norm_num [Binary.hiddenBit]
  exact mul_lt_mul_of_lt_of_le_of_nonneg_of_pos (hm.trans hlead) hpow m.cast_nonneg
    (zpow_pos two_pos _)

theorem Placed.of_half_le {q : ℚ} {t : ℤ} (h : Placed q t) (hlow : 1 / 2 ≤ q) (hhigh : q < 2) :
    -53 ≤ t ∧ t ≤ -52 := by
  have hhalf : (2 : ℚ) ^ (-1 : ℤ) < 2 ^ (t + 53) := lt_of_le_of_lt (by norm_num; linarith) h.lt
  have hleast := (zpow_lt_zpow_iff_right₀ (by norm_num)).1 hhalf
  have htwo : (2 : ℚ) ^ (t + 52) < 2 ^ (1 : ℤ) :=
    lt_of_le_of_lt (h.le.resolve_left (by omega)) (by simpa using hhigh)
  have hmost := (zpow_lt_zpow_iff_right₀ (by norm_num)).1 htwo
  omega

theorem roundByDivision_of_zero (hy : (x / powerOfTen largestPower).toModel.unpack =
    (Float.Model.pack (.zero (Binary.sign s))).unpack) :
    Binary.ofFloat (roundByDivision x largestPower) = .finite s 0 (-1074) := by
  have hpack : (Float.Model.pack (.zero (Binary.sign s))).unpack = .zero (Binary.sign s) := by
    cases s <;> rfl
  rw [hpack] at hy
  refine (roundByDivision_largest (n := 0) ?_ (by decide)).2 rfl
  exact roundHalf_of_lt (Binary.ofFloat_eq_zero hy) (by decide) (by decide)

theorem roundByDivision_of_lt (hx : Binary.ofFloat x = .finite s m e)
    (h : 2 * ((m : ℚ) * 2 ^ e) < largestDivisor) :
    Binary.ofFloat (roundByDivision x largestPower) = .finite s 0 (-1074) := by
  rcases Nat.eq_zero_or_pos m with rfl | hm
  · refine roundByDivision_of_zero ?_
    change (Float.Model.pack (UnpackedFloat.div .binary64 x.toModel.unpack
      (powerOfTen largestPower).toModel.unpack)).unpack = _
    rw [Binary.unpack_toModel x, hx, unpack_of_finite ofFloat_largest (by decide)]
    cases s <;> rfl
  obtain ⟨M, E, acc, hunpack, hdescribes, hE⟩ := exists_div_largest hx hm
  have hle := quotient_le (Binary.canonical_ofBits hx) (Binary.exponent_ofBits hx).2 h
  rcases exponent_round_le (s := Binary.sign s) hdescribes hE ⟨by decide, .inl (by decide)⟩
    (by decide) hle with hround | ⟨m', e', hm', hround, hc, hleast, hmost⟩
  · exact roundByDivision_of_zero (hround ▸ hunpack)
  · rw [hround, unpack_pack_of_canonical hc hleast (by omega) hm'] at hunpack
    have hy := Binary.ofFloat_eq_finite hunpack
    exact (roundByDivision_largest (roundHalf_of_lt hy hmost hc.lt) (by decide)).2 rfl

theorem roundByDivision_of_le (hx : Binary.ofFloat x = .finite s m e)
    (h : largestDivisor ≤ 2 * ((m : ℚ) * 2 ^ e)) :
    Binary.ofFloat (roundByDivision x largestPower) ≠ .finite s 0 (-1074) := by
  have hm : 0 < m := by
    rcases Nat.eq_zero_or_pos m with rfl | hm
    · exact absurd largestDivisor_pos (by simpa using h)
    · exact hm
  obtain ⟨M, E, acc, hunpack, hdescribes, hE⟩ := exists_div_largest hx hm
  obtain ⟨em, t, hplaced, -, hshape⟩ := exists_round (s := Binary.sign s) hdescribes hE
  have hhalf : 1 / 2 ≤ (m : ℚ) * 2 ^ e / largestDivisor := by
    rw [le_div_iff₀ largestDivisor_pos]
    linarith
  obtain ⟨ht, ht'⟩ := hplaced.of_half_le hhalf
    (quotient_lt_two (Binary.canonical_ofBits hx) (Binary.exponent_ofBits hx).2)
  rcases hshape with ⟨hleast, -⟩ | ⟨m', e', hm', hround, hc, hexp⟩
  · omega
  have he : -53 ≤ e' ∧ e' ≤ -51 := by omega
  rw [hround, unpack_pack_of_canonical hc (by omega) (by omega) hm'] at hunpack
  obtain ⟨n, hn, hfour, hwhole⟩ := exists_roundHalf (Binary.ofFloat_eq_finite hunpack) he.1 he.2
    (hc.le.resolve_right (by omega)) hc.lt
  rw [ne_eq, roundByDivision_largest hwhole hfour]
  omega

/-- Divided by the largest power, a number becomes zero if it is less than half of it. -/
theorem roundByDivision_eq_zero_iff (hx : Binary.ofFloat x = .finite s m e) :
    Binary.ofFloat (roundByDivision x largestPower) = .finite s 0 (-1074) ↔
      2 * (m * 2 ^ e) < largestDivisor :=
  ⟨fun hzero => not_le.1 fun hle => roundByDivision_of_le hx hle hzero, roundByDivision_of_lt hx⟩

end Left

section Overflow

theorem ofFloat_fallback :
    Binary.ofFloat (powerOfTen fallbackPower) = .finite false 0x17e43c880075a0 944 := by
  decide +kernel

/-- The product of a float too large for a decimal and the power is too large for a float. -/
theorem unpack_mul_fallback (hx : Binary.ofFloat x = .finite s m e)
    (hlarge : (2 : ℚ) ^ 96 ≤ m * 2 ^ e) :
    (x * powerOfTen fallbackPower).toModel.unpack = .infinity (Binary.sign s) := by
  have hm : 0 < m := by
    rcases Nat.eq_zero_or_pos m with rfl | hm
    · norm_num at hlarge
    · exact hm
  have hlead : Binary.hiddenBit ≤ m * 0x17e43c880075a0 :=
    le_trans (by decide) (Nat.le_mul_of_pos_left _ hm)
  obtain ⟨em, t, hplaced, -, hshape⟩ := exists_round (s := Binary.sign s)
    (describes_mul m 0x17e43c880075a0 e 944) (le_targetExponent (.inr hlead))
  have hself : (2 : ℚ) ^ (944 : ℤ) ≤ (0x17e43c880075a0 : ℕ) * 2 ^ (944 : ℤ) :=
    le_mul_of_one_le_left (by positivity) (by norm_num)
  have hproduct : (2 : ℚ) ^ (1040 : ℤ) < 2 ^ (t + 53) := by
    calc (2 : ℚ) ^ (1040 : ℤ) = 2 ^ (96 : ℕ) * 2 ^ (944 : ℤ) := by
          rw [← zpow_natCast, ← zpow_add₀ two_ne_zero]
          rfl
      _ ≤ m * 2 ^ e * ((0x17e43c880075a0 : ℕ) * 2 ^ (944 : ℤ)) :=
        mul_le_mul hlarge hself (by positivity) (by positivity)
      _ < 2 ^ (t + 53) := hplaced.lt
  have ht := (zpow_lt_zpow_iff_right₀ (by norm_num)).1 hproduct
  change (Float.Model.pack (UnpackedFloat.mul .binary64 x.toModel.unpack
    (powerOfTen fallbackPower).toModel.unpack)).unpack = _
  rw [unpack_of_finite hx hm, unpack_of_finite ofFloat_fallback (by decide)]
  simp only [UnpackedFloat.mul, sign_mul_false]
  rcases hshape with ⟨hleast, -⟩ | ⟨m', e', hm', hround, -, hexp⟩
  · omega
  · rw [hround, unpack_pack_large hm' (by omega)]

theorem roundByMultiplication_eq_infinite (hx : Binary.ofFloat x = .finite s m e)
    (hlarge : (2 : ℚ) ^ 96 ≤ m * 2 ^ e) :
    Binary.ofFloat (roundByMultiplication x fallbackPower) = .infinite s := by
  have hproduct := unpack_mul_fallback hx hlarge
  have hwhole : roundHalf (x * powerOfTen fallbackPower) = x * powerOfTen fallbackPower := by
    simp only [roundHalf, toWhole, Binary.ofFloat_eq_infinite hproduct]
  refine Binary.ofFloat_eq_infinite ?_
  rw [roundByMultiplication, hwhole]
  change (Float.Model.pack (UnpackedFloat.div .binary64
    (x * powerOfTen fallbackPower).toModel.unpack (powerOfTen fallbackPower).toModel.unpack)).unpack = _
  rw [hproduct, unpack_of_finite ofFloat_fallback (by decide)]
  cases s <;> rfl

end Overflow

section Right

variable {d : Decimal} {v : ℚ} {c t : ℕ} {places : ℤ}

theorem magnitude_eq (d : Decimal) : d.magnitude = d.coefficient * 10 ^ (-d.scale : ℤ) := by
  rw [Decimal.magnitude, zpow_neg, zpow_natCast, div_eq_mul_inv]

theorem ofFloat_toFloat_of_nearest (h : Nearest m e d.magnitude) (hc : Binary.Canonical m e)
    (he : -1074 ≤ e) (he' : e ≤ 971) (hm : 0 < m) (hpos : 0 < d.coefficient) :
    Binary.ofFloat d.toFloat = .finite d.negative m e := by
  rw [magnitude_eq] at h
  rw [Decimal.toFloat, nearestFloat_of_nearest h hc he he' hm hpos]
  exact ofFloat_signed hc he he' hm d.negative

theorem ofFloat_toFloat_zero : ∀ negative, ∀ scale ≤ Decimal.maxScale,
    Binary.ofFloat (Decimal.toFloat ⟨negative, 0, scale⟩) = .finite negative 0 (-1074) := by
  decide +kernel

theorem nearest_zero : Nearest 0 (-1074) 0 := by
  have hpow : (0 : ℚ) < 2 ^ (-1074 : ℤ) := by positivity
  have hreach : reach 0 (-1074) = 1 / 2 := if_neg (by decide)
  refine ⟨?_, ?_, nofun⟩
  · rw [hreach, Nat.cast_zero]
    linarith
  · rw [Nat.cast_zero]
    linarith

theorem Nearest.pos (h : Nearest m e v) (hc : Binary.Canonical m e)
    (hv : (2 : ℚ) ^ (-1075 : ℤ) < v) : 0 < m := by
  refine Nat.pos_of_ne_zero fun hm => ?_
  subst hm
  obtain rfl : e = -1074 := hc.le.resolve_left (by decide)
  have htwo : (2 : ℚ) ^ (-1074 : ℤ) = 2 * 2 ^ (-1075 : ℤ) := zpow_one_add₀ two_ne_zero (-1075)
  have hhigh := h.high
  rw [htwo, Nat.cast_zero] at hhigh
  linarith

theorem lt_magnitude (hscale : d.scale ≤ Decimal.maxScale) (hpos : 0 < d.coefficient) :
    (2 : ℚ) ^ (-1075 : ℤ) < d.magnitude := by
  have hone : (1 : ℚ) ≤ d.coefficient := by exact_mod_cast hpos
  have hten : (10 : ℚ) ^ d.scale ≤ 10 ^ 28 := pow_le_pow_right₀ (by norm_num) hscale
  calc (2 : ℚ) ^ (-1075 : ℤ) < 2 ^ (-100 : ℤ) := zpow_lt_zpow_right₀ (by norm_num) (by norm_num)
    _ ≤ 1 / 10 ^ 28 := by norm_num
    _ ≤ d.coefficient / 10 ^ d.scale := div_le_div₀ (by positivity) hone (by positivity) hten

theorem exists_toFloat (hscale : d.scale ≤ Decimal.maxScale) (hsmall : d.magnitude < 2 ^ 97) :
    ∃ m e, Binary.ofFloat d.toFloat = .finite d.negative m e ∧ Nearest m e d.magnitude := by
  rcases Nat.eq_zero_or_pos d.coefficient with hzero | hpos
  · obtain ⟨negative, c, scale⟩ := d
    obtain rfl : c = 0 := hzero
    refine ⟨0, -1074, ofFloat_toFloat_zero negative scale hscale, ?_⟩
    rw [Decimal.magnitude, Nat.cast_zero, zero_div]
    exact nearest_zero
  · have hvalue : (d.coefficient : ℚ) * 2 ^ (0 : ℤ) / ((10 ^ d.scale : ℕ) * 2 ^ (0 : ℤ)) =
        d.magnitude := by
      simp [Decimal.magnitude]
    obtain ⟨M, E, acc, -, hdescribes, hE⟩ :=
      describes_divCore 0 0 hpos (show 0 < 10 ^ d.scale from Nat.pow_pos (by decide))
    rw [hvalue] at hdescribes
    obtain ⟨em, t, -, hplaced, hem⟩ := exists_shift hdescribes hE
    obtain ⟨m, e, hc, hnearest, hlow, hhigh⟩ := hplaced.exists_nearest hem
    have hleast := hplaced.least
    have ht : t ≤ 970 := by
      rcases hplaced.le with rfl | hle
      · decide
      · have hpow : (2 : ℚ) ^ (t + 52) < 2 ^ (97 : ℤ) := hle.trans_lt hsmall
        have := (zpow_lt_zpow_iff_right₀ (by norm_num)).1 hpow
        omega
    exact ⟨m, e, ofFloat_toFloat_of_nearest hnearest hc (by omega) (by omega)
      (hnearest.pos hc (lt_magnitude hscale hpos)) hpos, hnearest⟩

/-- A decimal is read as a float if and only if it is nearest to it. -/
theorem toFloat_eq_iff (hscale : d.scale ≤ Decimal.maxScale) (hsmall : d.magnitude < 2 ^ 97)
    (hx : Binary.ofFloat x = .finite d.negative m e) : d.toFloat = x ↔ Nearest m e d.magnitude := by
  obtain ⟨he, he'⟩ := Binary.exponent_ofBits hx
  have hc := Binary.canonical_ofBits hx
  constructor
  · rintro rfl
    obtain ⟨m', e', hfinite, hnearest⟩ := exists_toFloat hscale hsmall
    rw [hfinite] at hx
    injection hx with _ hm he
    exact hm ▸ he ▸ hnearest
  · intro h
    rcases Nat.eq_zero_or_pos d.coefficient with hzero | hpos
    · obtain ⟨negative, c, scale⟩ := d
      obtain rfl : c = 0 := hzero
      have hm : m = 0 := by
        have hlow := h.low
        rw [Decimal.magnitude, Nat.cast_zero, zero_div] at hlow
        have hle : (m : ℚ) - reach m e ≤ 0 := nonpos_of_mul_nonpos_left hlow (by positivity)
        have hlt : (m : ℚ) < 1 := by linarith [reach_le m e]
        exact Nat.lt_one_iff.1 (by exact_mod_cast hlt)
      subst hm
      obtain rfl : e = -1074 := hc.le.resolve_left (by decide)
      exact Binary.ofFloat_inj (ofFloat_toFloat_zero negative scale hscale) hx
    · exact Binary.ofFloat_inj (ofFloat_toFloat_of_nearest h hc he he'
        (h.pos hc (lt_magnitude hscale hpos)) hpos) hx

theorem roundHalfAway_of_decimal (hplaces : Decimal.maxScale ≤ places)
    (hd : Decimal.ofFloat? x = some d) (hscale : d.scale ≤ Decimal.maxScale) :
    roundHalfAway x places = d.toFloat := by
  have hmin : min places.toNat Decimal.maxScale = Decimal.maxScale := min_eq_right (by omega)
  simp only [roundHalfAway, if_neg (show ¬places < 0 by omega), hd, hmin]
  rw [Decimal.round_of_scale_le hscale]

theorem roundHalfAway_eq_infinite (hx : Binary.ofFloat x = .finite s m e)
    (hlarge : (2 : ℚ) ^ 96 ≤ m * 2 ^ e) (hplaces : fallbackPower ≤ places) :
    Binary.ofFloat (roundHalfAway x places) = .infinite s := by
  have hmin : min places.toNat fallbackPower = fallbackPower := min_eq_right (by omega)
  simp only [roundHalfAway, if_neg (show ¬places < 0 by omega), Decimal.ofFloat?_eq_none hx hlarge,
    hmin]
  exact roundByMultiplication_eq_infinite hx hlarge

theorem nearest_of_le (hm : m < 2 * Binary.hiddenBit) (hlow : (m : ℚ) * 2 ^ e * (1 - 1 / 2 ^ 83) ≤ v)
    (hhigh : v ≤ m * 2 ^ e) : Nearest m e v := by
  have hpow : (0 : ℚ) < 2 ^ e := by positivity
  have hlost : (m : ℚ) * (1 / 2 ^ 83) < 1 / 4 := by
    have hbit : m < 2 ^ 53 := hm
    have hcast : (m : ℚ) < 2 ^ 53 := by exact_mod_cast hbit
    linarith
  have hreach : 1 / 4 ≤ reach m e := by
    unfold reach
    split <;> norm_num
  have hbelow : ((m : ℚ) - reach m e) * 2 ^ e < v := by
    refine lt_of_lt_of_le ?_ hlow
    rw [mul_right_comm]
    exact mul_lt_mul_of_pos_right (by linarith) hpow
  have habove : v < ((m : ℚ) + 1 / 2) * 2 ^ e :=
    hhigh.trans_lt (mul_lt_mul_of_pos_right (by linarith) hpow)
  exact ⟨hbelow.le, habove.le, fun _ => ⟨hbelow, habove⟩⟩

/-- A whole number that has a decimal stays as it is. -/
theorem roundHalfAway_of_whole (hx : Binary.ofFloat x = .finite s m e)
    (hwhole : (m : ℚ) * 2 ^ e = c) (hsmall : c < 2 ^ 96) (hplaces : Decimal.maxScale ≤ places) :
    roundHalfAway x places = x := by
  have hmagnitude : Decimal.magnitude ⟨s, c, 0⟩ = m * 2 ^ e := by
    rw [Decimal.magnitude, pow_zero, div_one, hwhole]
  have hbound : Decimal.magnitude ⟨s, c, 0⟩ < 2 ^ 97 := by
    rw [hmagnitude, hwhole]
    exact_mod_cast hsmall.trans (by decide)
  rw [roundHalfAway_of_decimal hplaces (Decimal.ofFloat?_whole hx hwhole hsmall) (Nat.zero_le _),
    toFloat_eq_iff (Nat.zero_le _) hbound hx, hmagnitude]
  have hpos : (0 : ℚ) ≤ m * 2 ^ e := by positivity
  exact nearest_of_le (Binary.canonical_ofBits hx).lt (mul_le_of_le_one_right hpos (by norm_num))
    le_rfl

theorem Decimal.StandsFor.lt {a : ℚ} (h : Decimal.StandsFor a c t) (ha : a < 2 ^ 96) :
    (c : ℚ) / 10 ^ t < 2 ^ 97 := by
  obtain ⟨v, -, hhigh, hsettled | ⟨rfl, rfl, -⟩⟩ := h
  · have hone : (1 : ℚ) ≤ 10 ^ t := one_le_pow₀ (by norm_num)
    have hv : v * 10 ^ t ≤ 2 ^ 96 * 10 ^ t :=
      mul_le_mul_of_nonneg_right (hhigh.trans ha.le) (by positivity)
    have hc := hsettled.low
    rw [div_lt_iff₀ (by positivity)]
    linarith
  · norm_num

/-- A float below the room of a coefficient becomes the float nearest to its decimal. -/
theorem exists_roundHalfAway (hx : Binary.ofFloat x = .finite s m e)
    (hsmall : (m : ℚ) * 2 ^ e < 2 ^ 96) : ∃ c t : ℕ, Decimal.StandsFor (m * 2 ^ e) c t ∧
      ∀ places : ℤ, Decimal.maxScale ≤ places →
        (roundHalfAway x places = x ↔ Nearest m e (c / 10 ^ t)) ∧
        ∃ m' e', Binary.ofFloat (roundHalfAway x places) = .finite s m' e' ∧
          Nearest m' e' (c / 10 ^ t) := by
  obtain ⟨d, hd, rfl, hscale, c, t, hmagnitude, hstands⟩ := Decimal.exists_ofFloat? hx hsmall
  have hbound := hstands.lt hsmall
  rw [← hmagnitude] at hbound
  refine ⟨c, t, hstands, fun places hplaces => ?_⟩
  rw [roundHalfAway_of_decimal hplaces hd hscale, toFloat_eq_iff hscale hbound hx, ← hmagnitude]
  exact ⟨Iff.rfl, exists_toFloat hscale hbound⟩

section Short

variable {a : ℚ} {c' t' : ℕ}

/-- The decimal `c / 10 ^ t` has all the digits there is room for, and a number is less than four
ninths of its last place above it. -/
structure Short (a : ℚ) (c t : ℕ) : Prop where
  pos : 0 < c
  digits : c < 2 ^ 52
  places : t ≤ Decimal.maxScale
  most : t = Decimal.maxScale ∨ 2 ^ 52 ≤ a * 10 ^ (t + 1)
  high : a * 10 ^ t < c + 4 / 9

/-- A float is not far below the decimals it is nearest to. -/
theorem Nearest.le_of_short (h : Nearest m e (c / 10 ^ t)) (hc : Binary.Canonical m e)
    (hshort : Short a c t) : (c : ℚ) * (1 - 1 / 2 ^ 53) ≤ m * 2 ^ e * 10 ^ t := by
  have hpow : (0 : ℚ) < 2 ^ e := by positivity
  have hten : (0 : ℚ) < 10 ^ t := by positivity
  have hhigh := h.high
  rw [div_le_iff₀ hten] at hhigh
  have hlead : Binary.hiddenBit ≤ m := by
    refine hc.le.resolve_right fun hleast => ?_
    subst hleast
    have hone : (1 : ℚ) ≤ c := by exact_mod_cast hshort.pos
    have hm : (m : ℚ) + 1 / 2 ≤ 2 ^ 54 := by
      have hbit : m < 2 ^ 53 := hc.lt
      have hcast : (m : ℚ) < 2 ^ 53 := by exact_mod_cast hbit
      linarith
    have hleast : (2 : ℚ) ^ (-1074 : ℤ) ≤ 2 ^ (-200 : ℤ) :=
      zpow_le_zpow_right₀ (by norm_num) (by norm_num)
    have hplaces : (10 : ℚ) ^ t ≤ 10 ^ 28 := pow_le_pow_right₀ (by norm_num) hshort.places
    have hlt : ((m : ℚ) + 1 / 2) * 2 ^ (-1074 : ℤ) * 10 ^ t < 1 := by
      calc ((m : ℚ) + 1 / 2) * 2 ^ (-1074 : ℤ) * 10 ^ t ≤ 2 ^ 54 * 2 ^ (-200 : ℤ) * 10 ^ 28 :=
            mul_le_mul (mul_le_mul hm hleast hpow.le (by positivity)) hplaces hten.le
              (by positivity)
        _ < 1 := by norm_num
    linarith
  have hlead : (2 : ℚ) ^ 52 ≤ m := by exact_mod_cast hlead
  have hhalf : (1 : ℚ) / 2 * (2 ^ e * 10 ^ t) ≤ m * (1 / 2 ^ 53) * (2 ^ e * 10 ^ t) :=
    mul_le_mul_of_nonneg_right (by linarith) (by positivity)
  have hpos : (0 : ℚ) ≤ m * (2 ^ e * 10 ^ t) := by positivity
  linarith

theorem Short.nonneg (hshort : Short a c t)
    (hnear : (c : ℚ) * (1 - 1 / 2 ^ 53) ≤ a * 10 ^ t) : 0 ≤ a := by
  have hpos : (0 : ℚ) < c * (1 - 1 / 2 ^ 53) :=
    mul_pos (by exact_mod_cast hshort.pos) (by norm_num)
  exact nonneg_of_mul_nonneg_left (hpos.le.trans hnear) (by positivity)

/-- A number settles to its short decimal, or to one that is exact. -/
theorem Short.eq_of_settled (hshort : Short a c t) (h : Decimal.Settled v c' t')
    (hlow : a * (1 - 1 / 2 ^ 83) ≤ v) (hhigh : v ≤ a)
    (hnear : (c : ℚ) * (1 - 1 / 2 ^ 53) ≤ a * 10 ^ t) : v * 10 ^ t' = c' ∨ c' = c ∧ t' = t := by
  have ha := hshort.nonneg hnear
  have hdigits : (c : ℚ) + 1 ≤ 2 ^ 52 := by exact_mod_cast hshort.digits
  have hgrow {i j : ℕ} (hij : i ≤ j) : a * 10 ^ i ≤ a * 10 ^ j :=
    mul_le_mul_of_nonneg_left (pow_le_pow_right₀ (by norm_num) hij) ha
  have hscale (i : ℕ) : v * 10 ^ i ≤ a * 10 ^ i ∧ a * 10 ^ i * (1 - 1 / 2 ^ 83) ≤ v * 10 ^ i := by
    have hten : (0 : ℚ) ≤ 10 ^ i := by positivity
    refine ⟨mul_le_mul_of_nonneg_right hhigh hten, ?_⟩
    rw [mul_right_comm]
    exact mul_le_mul_of_nonneg_right hlow hten
  have hplaces := hshort.places
  have hplaces' := h.places
  rw [or_iff_not_imp_left]
  intro hexact
  obtain rfl : t' = t := by
    refine Nat.le_antisymm (Nat.le_of_not_lt fun hlt => ?_) (Nat.le_of_not_lt fun hlt => ?_)
    · have hfull := (hshort.most.resolve_left (by omega)).trans (hgrow (Nat.succ_le_of_lt hlt))
      have hfew : (c' : ℚ) + 1 ≤ 2 ^ 52 := by
        exact_mod_cast h.digits.resolve_right (by omega)
      linarith [h.high, (hscale t').2]
    · have hfull := (h.most.resolve_left (by omega)).resolve_left hexact
      have hless : a * 10 ^ (t' + 1) ≤ a * 10 ^ t := hgrow (Nat.succ_le_of_lt hlt)
      linarith [hshort.high, (hscale (t' + 1)).1]
  have hle : (c' : ℚ) < c + 1 := by linarith [h.low, hshort.high, (hscale t').1]
  have hge : (c : ℚ) < c' + 1 := by linarith [h.high, (hscale t').2]
  have hle : c' < c + 1 := by exact_mod_cast hle
  have hge : c < c' + 1 := by exact_mod_cast hge
  exact ⟨by omega, rfl⟩

theorem Short.not_vanishes (hshort : Short a c t) (hlow : a * (1 - 1 / 2 ^ 83) ≤ v)
    (hnear : (c : ℚ) * (1 - 1 / 2 ^ 53) ≤ a * 10 ^ t) : ¬Decimal.Vanishes v c' t' := by
  rintro ⟨-, -, hvanish⟩
  have hone : (1 : ℚ) ≤ c := by exact_mod_cast hshort.pos
  have hten : (0 : ℚ) ≤ 10 ^ Decimal.maxScale := by positivity
  have hlow : a * 10 ^ Decimal.maxScale * (1 - 1 / 2 ^ 83) ≤ v * 10 ^ Decimal.maxScale := by
    rw [mul_right_comm]
    exact mul_le_mul_of_nonneg_right hlow hten
  have hlarge : 1 - 1 / 2 ^ 53 ≤ a * 10 ^ Decimal.maxScale := by
    refine le_trans ?_ (mul_le_mul_of_nonneg_left
      (pow_le_pow_right₀ (by norm_num) hshort.places) (hshort.nonneg hnear))
    linarith
  linarith

/-- A float that has a short decimal is nearest to the decimal that stands for it. -/
theorem Short.nearest_of_standsFor (hshort : Short (m * 2 ^ e) c t)
    (hnearest : Nearest m e (c / 10 ^ t)) (hc : Binary.Canonical m e)
    (h : Decimal.StandsFor (m * 2 ^ e) c' t') : Nearest m e (c' / 10 ^ t') := by
  have hnear := hnearest.le_of_short hc hshort
  obtain ⟨v, hlow, hhigh, hsettled | hvanishes⟩ := h
  · rcases hshort.eq_of_settled hsettled hlow hhigh hnear with hexact | ⟨rfl, rfl⟩
    · rw [← hexact, mul_div_cancel_right₀ _ (by positivity)]
      exact nearest_of_le hc.lt hlow hhigh
    · exact hnearest
  · exact absurd hvanishes (hshort.not_vanishes hlow hnear)

/-- A number that has a short decimal stays as it is. -/
theorem roundHalfAway_of_short (hx : Binary.ofFloat x = .finite s m e)
    (hnearest : Nearest m e (c / 10 ^ t)) (hshort : Short (m * 2 ^ e) c t)
    (hplaces : Decimal.maxScale ≤ places) : roundHalfAway x places = x := by
  have hsmall : (m : ℚ) * 2 ^ e < 2 ^ 96 := by
    have hdigits : (c : ℚ) < 2 ^ 52 := by exact_mod_cast hshort.digits
    have hself : (m : ℚ) * 2 ^ e ≤ m * 2 ^ e * 10 ^ t :=
      le_mul_of_one_le_right (by positivity) (one_le_pow₀ (by norm_num))
    linarith [hshort.high]
  obtain ⟨c', t', hstands, hround⟩ := exists_roundHalfAway hx hsmall
  rw [(hround places hplaces).1]
  exact hshort.nearest_of_standsFor hnearest (Binary.canonical_ofBits hx) hstands

example : roundHalfAway 0.1 1074 = 0.1 := by
  have hx : Binary.ofFloat 0.1 = .finite false 0x1999999999999a (-56) := by decide +kernel
  have hnearest : Nearest 0x1999999999999a (-56) ((1000000000000000 : ℕ) / 10 ^ 16) := by
    constructor <;> norm_num [reach, Binary.hiddenBit]
  have hshort : Short ((0x1999999999999a : ℕ) * 2 ^ (-56 : ℤ)) 1000000000000000 16 := by
    constructor <;> norm_num [Decimal.maxScale]
  exact roundHalfAway_of_short hx hnearest hshort (by decide)

end Short

end Right

section Far

theorem roundHalfAway_eq_zero_iff (hx : Binary.ofFloat x = .finite s m e) {places : ℤ}
    (hplaces : places ≤ -309) : Binary.ofFloat (roundHalfAway x places) = .finite s 0 (-1074) ↔
      2 * (m * 2 ^ e) < largestDivisor := by
  have hmin : min places.natAbs largestPower = largestPower := by
    rw [largestPower]
    omega
  rw [roundHalfAway, if_pos (by omega), hmin]
  exact roundByDivision_eq_zero_iff hx

/-- Beyond the first digit of every float, a number becomes zero if and only if it is less than half
of the largest power of ten that is a float. Beyond the last digit of every float, a number too
large for a decimal becomes infinite, and any other becomes the float nearest to its decimal. That
is the number itself for the whole numbers and for those that have a short decimal. -/
theorem roundHalfAway_far (hx : Binary.ofFloat x = .finite s m e) :
    (∀ places : ℤ, places ≤ -309 →
      (Binary.ofFloat (roundHalfAway x places) = .finite s 0 (-1074) ↔
        2 * (m * 2 ^ e) < largestDivisor)) ∧
    (∀ places : ℤ, 1074 ≤ places →
      (2 ^ 96 ≤ (m : ℚ) * 2 ^ e → Binary.ofFloat (roundHalfAway x places) = .infinite s) ∧
      (∀ c : ℕ, (m : ℚ) * 2 ^ e = c → c < 2 ^ 96 → roundHalfAway x places = x) ∧
      ∀ c t : ℕ, Short (m * 2 ^ e) c t → Nearest m e (c / 10 ^ t) → roundHalfAway x places = x) ∧
    ((m : ℚ) * 2 ^ e < 2 ^ 96 → ∃ c t : ℕ, Decimal.StandsFor (m * 2 ^ e) c t ∧
      ∀ places : ℤ, 1074 ≤ places →
        (roundHalfAway x places = x ↔ Nearest m e (c / 10 ^ t)) ∧
        ∃ m' e', Binary.ofFloat (roundHalfAway x places) = .finite s m' e' ∧
          Nearest m' e' (c / 10 ^ t)) := by
  have hroom {places : ℤ} (h : 1074 ≤ places) : (Decimal.maxScale : ℤ) ≤ places :=
    le_trans (by decide) h
  refine ⟨fun places hplaces => roundHalfAway_eq_zero_iff hx hplaces,
    fun places hplaces => ⟨fun hlarge => ?_, fun c hwhole hsmall => ?_, fun c t hshort hnearest => ?_⟩,
    fun hsmall => ?_⟩
  · exact roundHalfAway_eq_infinite hx hlarge (le_trans (by decide) hplaces)
  · exact roundHalfAway_of_whole hx hwhole hsmall (hroom hplaces)
  · exact roundHalfAway_of_short hx hnearest hshort (hroom hplaces)
  · obtain ⟨c, t, hstands, hround⟩ := exists_roundHalfAway hx hsmall
    exact ⟨c, t, hstands, fun places hplaces => hround places (hroom hplaces)⟩

/-- Neither end leaves the largest power of ten as it should be. -/
theorem roundHalfAway_far_largest :
    Binary.ofFloat (roundHalfAway 1e308 (-309)) ≠ .finite false 0 (-1074) ∧
      Binary.ofFloat (roundHalfAway 1e308 1074) = .infinite false := by
  have hx : Binary.ofFloat 1e308 = .finite false 0x11ccf385ebc8a0 971 := by decide +kernel
  obtain ⟨hleft, hright, -⟩ := roundHalfAway_far hx
  have hpow : (2 : ℚ) ^ (96 : ℕ) ≤ 2 ^ (971 : ℤ) := by
    rw [← zpow_natCast]
    exact zpow_le_zpow_right₀ (by norm_num) (by norm_num)
  have hpos : (0 : ℚ) < 2 ^ (971 : ℤ) := by positivity
  constructor
  · rw [ne_eq, hleft (-309) le_rfl, largestDivisor, not_lt, ← mul_assoc]
    exact mul_le_mul_of_nonneg_right (by norm_num) hpos.le
  · refine (hright 1074 le_rfl).1 (hpow.trans ?_)
    exact le_mul_of_one_le_left hpos.le (by norm_num)

/-- Eleven digits are not few enough. -/
example : Binary.ofFloat (roundHalfAway 4474923.7914 1074) ≠ Binary.ofFloat 4474923.7914 := by
  decide +kernel

end Far

end Spreadsheet.Number
