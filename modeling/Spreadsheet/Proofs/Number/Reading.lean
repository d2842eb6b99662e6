import Spreadsheet.Number.Reading
import Spreadsheet.Proofs.Number.Nearest

/-!
The float that a decimal denotes. Small decimals are one product or quotient of exact floats, all
others one of exact numbers of the logical model, and the bounds on the power of ten are never met
inside the range of the floats. So a decimal in the interval of a float denotes that float.
-/
namespace Spreadsheet.Number

open Float.Model Float.Model.UnpackedFloat

variable {m c k : ℕ} {e : ℤ} {x : Float}

section Exact

theorem leading_mul {n : ℕ} (hn : 0 < n) (hlt : n < 2 ^ 53) :
    (leading n : ℚ) * 2 ^ leadingExponent n = n := by
  have hlog := log2_le hn hlt
  have hexp : leadingExponent n = -((52 - n.log2 : ℕ) : ℤ) := by
    rw [leadingExponent]
    omega
  rw [hexp, leading, zpow_neg, zpow_natCast]
  push_cast
  rw [mul_inv_cancel_right₀ (by positivity)]

/-- The float is the power of ten, with its leading bit in place. -/
def isPowerOfTen (x : Float) (k : ℕ) : Bool :=
  match Binary.ofFloat x with
  | .finite false m e =>
    Binary.hiddenBit ≤ m && -52 ≤ e && m * 2 ^ (e + 52).toNat == 10 ^ k * 2 ^ 52
  | _ => false

theorem exists_of_isPowerOfTen (h : isPowerOfTen x k = true) :
    ∃ m e, ∃ hm : 0 < m, x.toModel.unpack = .finite .positive m e hm ∧ Binary.hiddenBit ≤ m ∧
      (m : ℚ) * 2 ^ e = 10 ^ k := by
  unfold isPowerOfTen at h
  split at h
  · rename_i m e hx
    simp only [Bool.and_eq_true, decide_eq_true_eq, beq_iff_eq] at h
    obtain ⟨⟨hlead, hexp⟩, hvalue⟩ := h
    have hm : 0 < m := Nat.lt_of_lt_of_le (by decide) hlead
    refine ⟨m, e, hm, ?_, hlead, ?_⟩
    · rw [Binary.unpack_toModel, hx, Binary.unpacked, dif_neg (Nat.ne_of_gt hm)]
      rfl
    · have hpow : (2 : ℚ) ^ (e + 52).toNat = 2 ^ e * 2 ^ 52 := by
        rw [← zpow_natCast, ← zpow_natCast, ← zpow_add₀ two_ne_zero]
        congr 1
        omega
      have hcast : (m : ℚ) * 2 ^ (e + 52).toNat = 10 ^ k * 2 ^ 52 := by exact_mod_cast hvalue
      rw [hpow, ← mul_assoc] at hcast
      exact mul_right_cancel₀ (by norm_num) hcast
  · cases h

theorem isPowerOfTen_table : ∀ i : Fin Float.exactlyRepresentablePowersOfTen.size,
    isPowerOfTen Float.exactlyRepresentablePowersOfTen[i] i = true := by
  decide +kernel

theorem exists_power (hk : k < Float.exactlyRepresentablePowersOfTen.size) :
    ∃ m e, ∃ hm : 0 < m, Float.exactlyRepresentablePowersOfTen[k].toModel.unpack =
        .finite .positive m e hm ∧ Binary.hiddenBit ≤ m ∧ (m : ℚ) * 2 ^ e = 10 ^ k :=
  exists_of_isPowerOfTen (isPowerOfTen_table ⟨k, hk⟩)

end Exact

section Scientific

/-- The float of a positive significand and an exponent. -/
def positive (m : ℕ) (e : ℤ) (hm : 0 < m) : Float :=
  .ofModel (Float.Model.pack (.finite .positive m e hm))

theorem two_zpow_le_ten_zpow : (2 : ℚ) ^ (1200 : ℤ) ≤ 10 ^ (400 : ℤ) := by
  rw [show (1200 : ℤ) = 3 * 400 from rfl, zpow_mul]
  exact zpow_le_zpow_left₀ (by norm_num) (by norm_num) (by norm_num)

/-- A decimal inside the interval of a float is within the reach of its digits. -/
theorem Nearest.bounds {k : ℤ} (h : Nearest m e (c * 10 ^ k)) (hc : Binary.Canonical m e)
    (he : -1074 ≤ e) (he' : e ≤ 971) (hm : 0 < m) (hpos : 0 < c) :
    k < 400 ∧ -k < 400 + c.log2 := by
  have hpow : (0 : ℚ) < 2 ^ e := by positivity
  have hten : (0 : ℚ) < 10 ^ k := by positivity
  constructor
  · by_contra hk
    have hm : (m : ℚ) + 1 ≤ 2 ^ 53 := by exact_mod_cast hc.lt
    have hc : (1 : ℚ) ≤ c := by exact_mod_cast hpos
    have hlarge : (2 : ℚ) ^ (1200 : ℤ) < 2 ^ 53 * 2 ^ (971 : ℤ) := by
      calc (2 : ℚ) ^ (1200 : ℤ) ≤ 10 ^ (400 : ℤ) := two_zpow_le_ten_zpow
        _ ≤ 10 ^ k := zpow_le_zpow_right₀ (by norm_num) (by omega)
        _ ≤ c * 10 ^ k := le_mul_of_one_le_left hten.le hc
        _ ≤ (m + 1 / 2) * 2 ^ e := h.high
        _ < 2 ^ 53 * 2 ^ e := mul_lt_mul_of_pos_right (by linarith) hpow
        _ ≤ 2 ^ 53 * 2 ^ (971 : ℤ) :=
          mul_le_mul_of_nonneg_left (zpow_le_zpow_right₀ (by norm_num) he') (by positivity)
    rw [← zpow_natCast, ← zpow_add₀ two_ne_zero, zpow_lt_zpow_iff_right₀ (by norm_num)] at hlarge
    norm_num at hlarge
  · by_contra hk
    have hm : (1 : ℚ) ≤ m := by exact_mod_cast hm
    have hreach := reach_le m e
    have hc : (c : ℚ) ≤ 2 * 10 ^ c.log2 := by
      have hlt : (c : ℚ) ≤ 2 ^ (c.log2 + 1) := by exact_mod_cast Nat.lt_log2_self.le
      have hle : (2 : ℚ) ^ c.log2 ≤ 10 ^ c.log2 := pow_le_pow_left₀ (by norm_num) (by norm_num) _
      rw [pow_succ] at hlt
      linarith
    have hsmall : (2 : ℚ) ^ (-1075 : ℤ) ≤ 2 ^ (-1199 : ℤ) := by
      calc (2 : ℚ) ^ (-1075 : ℤ) ≤ 2 ^ (e - 1) := zpow_le_zpow_right₀ (by norm_num) (by omega)
        _ = 1 / 2 * 2 ^ e := by rw [zpow_sub_one₀ two_ne_zero, mul_comm, one_div]
        _ ≤ (m - reach m e) * 2 ^ e := mul_le_mul_of_nonneg_right (by linarith) hpow.le
        _ ≤ c * 10 ^ k := h.low
        _ ≤ 2 * 10 ^ c.log2 * 10 ^ (-400 - c.log2 : ℤ) :=
          mul_le_mul hc (zpow_le_zpow_right₀ (by norm_num) (by omega)) hten.le (by positivity)
        _ = 2 * 10 ^ (-400 : ℤ) := by
          rw [mul_assoc, ← zpow_natCast, ← zpow_add₀ (by norm_num)]
          congr 2
          omega
        _ ≤ 2 * 2 ^ (-1200 : ℤ) := by
          rw [zpow_neg, zpow_neg]
          exact mul_le_mul_of_nonneg_left (inv_anti₀ (zpow_pos two_pos _)
            two_zpow_le_ten_zpow) zero_le_two
        _ = 2 ^ (-1199 : ℤ) := (zpow_one_add₀ two_ne_zero (-1200)).symm
    rw [zpow_le_zpow_iff_right₀ (by norm_num)] at hsmall
    norm_num at hsmall

/-- A decimal too large for the exact powers of ten is the product of two exact numbers. -/
theorem ofScientific_eq_mul (hpos : 0 < c) (hk : k ≤ 400) :
    ∃ hc hk, UnpackedFloat.ofScientific .binary64 c k =
      UnpackedFloat.mul .binary64 (.finite .positive (c <<< 53) (-53) hc)
        (.finite .positive (10 ^ k) 0 hk) := by
  have hc : 0 < c <<< 53 := by
    rw [Nat.shiftLeft_eq]
    exact Nat.mul_pos hpos (by decide)
  refine ⟨hc, Nat.pow_pos (by decide), ?_⟩
  unfold UnpackedFloat.ofScientific
  rw [dif_neg (Nat.ne_of_gt hpos), if_neg, if_neg, if_pos (Int.natCast_nonneg k)]
  · rfl
  · change ¬(k : ℤ) < -(2 ^ 11 + (c.log2 : ℤ))
    omega
  · change ¬(k : ℤ) > 2 ^ 11
    omega

theorem shifted_mul (c k : ℕ) :
    ((c <<< 53 : ℕ) : ℚ) * 2 ^ (-53 : ℤ) * ((10 ^ k : ℕ) * 2 ^ (0 : ℤ)) = c * 10 ^ k := by
  rw [Nat.shiftLeft_eq]
  push_cast
  norm_num
  ring

theorem hiddenBit_le_shifted (hpos : 0 < c) (k : ℕ) : Binary.hiddenBit ≤ c <<< 53 * 10 ^ k := by
  have hshifted : Binary.hiddenBit ≤ c <<< 53 := by
    rw [Nat.shiftLeft_eq]
    exact le_trans (by decide) (Nat.le_mul_of_pos_left _ hpos)
  exact hshifted.trans (Nat.le_mul_of_pos_right _ (Nat.pow_pos (by decide)))

theorem ofScientific_mul (h : Nearest m e (c * 10 ^ k)) (hc : Binary.Canonical m e)
    (he : -1074 ≤ e) (hm : 0 < m) (hpos : 0 < c) (hk : k ≤ 400) :
    Float.ofScientific c false k = positive m e hm := by
  unfold Float.ofScientific
  split
  · rename_i hsmall
    have htable : k < Float.exactlyRepresentablePowersOfTen.size := Nat.lt_succ_of_le hsmall.2
    obtain ⟨m', e', hm', hunpack, hlead, hvalue⟩ := exists_power htable
    rw [← leading_mul hpos hsmall.1, ← hvalue] at h
    change Float.ofModel (Float.Model.pack (UnpackedFloat.mul .binary64
      c.toUInt64.toFloat.toModel.unpack _)) = _
    rw [unpack_toFloat hpos hsmall.1, hunpack, mul_of_nearest h hc he hm]
    · rfl
    · exact hlead.trans (Nat.le_mul_of_pos_left _ (leading_pos hpos))
  · obtain ⟨hmantissa, hpower, hscientific⟩ := ofScientific_eq_mul hpos hk
    rw [← shifted_mul] at h
    change Float.ofModel (Float.Model.pack (UnpackedFloat.ofScientific .binary64 c k)) = _
    rw [hscientific, mul_of_nearest h hc he hm]
    · rfl
    · exact hiddenBit_le_shifted hpos k

theorem ofScientific_div (h : Nearest m e (c / 10 ^ k)) (hc : Binary.Canonical m e)
    (he : -1074 ≤ e) (hm : 0 < m) (hpos : 0 < c) (hk : k ≤ 400 + c.log2) (hk' : 0 < k) :
    Float.ofScientific c true k = positive m e hm := by
  unfold Float.ofScientific
  split
  · rename_i hsmall
    have htable : k < Float.exactlyRepresentablePowersOfTen.size := Nat.lt_succ_of_le hsmall.2
    obtain ⟨m', e', hm', hunpack, hlead, hvalue⟩ := exists_power htable
    rw [← leading_mul hpos hsmall.1, ← hvalue] at h
    change Float.ofModel (Float.Model.pack (UnpackedFloat.div .binary64
      c.toUInt64.toFloat.toModel.unpack _)) = _
    rw [unpack_toFloat hpos hsmall.1, hunpack, div_of_nearest h hc he hm]
    rfl
  · have hscientific : UnpackedFloat.ofScientific .binary64 c (-k) =
        UnpackedFloat.div .binary64 (.finite .positive c 0 hpos)
          (.finite .positive (10 ^ k) 0 (Nat.pow_pos (by decide))) := by
      have hnat : (-(-(k : ℤ))).toNat = k := by omega
      unfold UnpackedFloat.ofScientific
      rw [dif_neg (Nat.ne_of_gt hpos), if_neg, if_neg, if_neg (by omega)]
      · simp only [hnat]
      · change ¬-(k : ℤ) < -(2 ^ 11 + (c.log2 : ℤ))
        omega
      · change ¬-(k : ℤ) > 2 ^ 11
        omega
    have hvalue : (c : ℚ) / (10 : ℚ) ^ k = c * 2 ^ (0 : ℤ) / ((10 ^ k : ℕ) * 2 ^ (0 : ℤ)) := by
      simp
    have hneg : Int.negOfNat k = -(k : ℤ) := Int.negOfNat_eq
    rw [hvalue] at h
    change Float.ofModel (Float.Model.pack
      (UnpackedFloat.ofScientific .binary64 c (Int.negOfNat k))) = _
    rw [hneg, hscientific, div_of_nearest h hc he hm]
    rfl

/-- A decimal in the interval of a float denotes the float. -/
theorem nearestFloat_of_nearest {k : ℤ} (h : Nearest m e (c * 10 ^ k)) (hc : Binary.Canonical m e)
    (he : -1074 ≤ e) (he' : e ≤ 971) (hm : 0 < m) (hpos : 0 < c) :
    nearestFloat c k = positive m e hm := by
  obtain ⟨hhigh, hlow⟩ := h.bounds hc he he' hm hpos
  unfold nearestFloat
  split
  · rename_i hk
    have hnat : ((k.toNat : ℕ) : ℤ) = k := Int.toNat_of_nonneg hk
    rw [← hnat, zpow_natCast] at h
    rw [min_eq_left (by rw [decimalReach]; omega)]
    exact ofScientific_mul h hc he hm hpos (by omega)
  · rename_i hk
    have hnat : (((-k).toNat : ℕ) : ℤ) = -k := Int.toNat_of_nonneg (by omega)
    rw [← neg_neg k, ← hnat, zpow_neg, zpow_natCast, ← div_eq_mul_inv] at h
    rw [min_eq_left (by rw [decimalReach]; omega)]
    exact ofScientific_div h hc he hm hpos (by omega) (by omega)

end Scientific

end Spreadsheet.Number
