import Mathlib
import Spreadsheet.Number.Whole

/-!
Floats read off their bits, against floats of the logical model. Both take a bit pattern apart in
the same way, so what the model says of comparisons and of rounding carries over to sign,
significand and exponent.
-/
namespace Spreadsheet.Number

open Float.Model Float.Model.UnpackedFloat

namespace Binary

/-- The sign of the logical model. -/
def sign (negative : Bool) : Sign := if negative then .negative else .positive

/-- The float as the logical model has it. -/
def unpacked : Binary → UnpackedFloat
  | .nan => .notANumber
  | .infinite s => .infinity (sign s)
  | .finite s m e =>
    if h : m = 0 then .zero (sign s) else .finite (sign s) m e (Nat.pos_of_ne_zero h)

/-- A significand and an exponent of the standard form: the leading bit is in its place unless the
exponent is the least. -/
structure Canonical (m : Nat) (e : Int) : Prop where
  lt : m < 2 * hiddenBit
  le : hiddenBit ≤ m ∨ e = -1074

theorem canonical_ofBits {bits : Nat} {s : Bool} {m : Nat} {e : Int}
    (h : ofBits bits = .finite s m e) : Canonical m e := by
  refine ⟨ofBits_significand_lt h, ?_⟩
  simp only [ofBits] at h
  split at h
  · split at h <;> cases h
  · split at h <;> (injection h; omega)

theorem exponent_ofBits {bits : Nat} {s : Bool} {m : Nat} {e : Int}
    (h : ofBits bits = .finite s m e) : -1074 ≤ e ∧ e ≤ 971 := by
  simp only [ofBits] at h
  split at h
  · split at h <;> cases h
  · split at h <;> (injection h; omega)

/-- A bit pattern of a finite float is determined by sign, significand and exponent. -/
theorem ofBits_inj {a b : Nat} (ha : a < 2 ^ 64) (hb : b < 2 ^ 64) {s : Bool} {m : Nat} {e : Int}
    (h : ofBits a = .finite s m e) (h' : ofBits b = .finite s m e) : a = b := by
  have hsign (n : Nat) (hn : n < 2 ^ 64) : n / 2 ^ 63 = (n.testBit 63).toNat := by
    rw [Nat.toNat_testBit]
    omega
  have hsigns : a / 2 ^ 63 = b / 2 ^ 63 := by
    have hneg {n : Nat} (h : ofBits n = .finite s m e) : n.testBit 63 = s := by
      simp only [ofBits] at h
      split at h
      · split at h <;> cases h
      · split at h <;> (injection h)
    rw [hsign a ha, hsign b hb, hneg h, hneg h']
  have hfields {n : Nat} (h : ofBits n = .finite s m e) :
      n / hiddenBit % 2048 = (if hiddenBit ≤ m then (e + 1075).toNat else 0) ∧
        n % hiddenBit = if hiddenBit ≤ m then m - hiddenBit else m := by
    have hlt : n % hiddenBit < hiddenBit := Nat.mod_lt _ (by decide)
    simp only [ofBits] at h
    split at h
    · split at h <;> cases h
    · split at h <;> (injection h; split <;> omega)
  obtain ⟨hexp, hfraction⟩ := hfields h
  obtain ⟨hexp', hfraction'⟩ := hfields h'
  simp only [hiddenBit] at hexp hexp' hfraction hfraction'
  omega

theorem ofFloat_inj {x y : Float} {s : Bool} {m : Nat} {e : Int}
    (hx : ofFloat x = .finite s m e) (hy : ofFloat y = .finite s m e) : x = y := by
  have hbits : x.toModel.toBits = y.toModel.toBits :=
    UInt64.toNat_inj.1 (ofBits_inj x.toBits.toNat_lt y.toBits.toNat_lt hx hy)
  obtain ⟨⟨a, ha⟩⟩ := x
  obtain ⟨⟨b, hb⟩⟩ := y
  obtain rfl : a = b := hbits
  rfl

section Fields

variable (b : BitVec Format.binary64.numBits)

theorem toNat_unpackMantissa : (unpackMantissa b).toNat = b.toNat % hiddenBit := by
  simp [unpackMantissa, hiddenBit]

theorem toNat_unpackExponent : (unpackExponent b).toNat = b.toNat / hiddenBit % 2048 := by
  simp [unpackExponent, hiddenBit, Nat.shiftRight_eq_div_pow]

theorem ofBitVec_unpackSign : Sign.ofBitVec (unpackSign b) = sign (b.toNat.testBit 63) := by
  have hbit : (unpackSign b).toNat = (b.toNat.testBit 63).toNat := by
    simp [unpackSign, Nat.toNat_testBit, Nat.shiftRight_eq_div_pow]
  unfold Sign.ofBitVec sign
  simp only [← BitVec.toNat_inj, hbit]
  cases b.toNat.testBit 63 <;> rfl

theorem unpackMantissa_eq_zero_iff : unpackMantissa b = 0#_ ↔ b.toNat % hiddenBit = 0 := by
  rw [← BitVec.toNat_inj, toNat_unpackMantissa]
  rfl

theorem unpackExponent_eq_top_iff :
    unpackExponent b = -1#_ ↔ b.toNat / hiddenBit % 2048 = 2047 := by
  rw [← BitVec.toNat_inj, toNat_unpackExponent]
  rfl

theorem unpackExponent_eq_zero_iff :
    unpackExponent b = 0#_ ↔ b.toNat / hiddenBit % 2048 = 0 := by
  rw [← BitVec.toNat_inj, toNat_unpackExponent]
  rfl

end Fields

theorem toNat_hidden_append (v : BitVec 52) : (1#1 ++ v).toNat = hiddenBit + v.toNat := by
  rw [BitVec.toNat_append]
  exact (Nat.two_pow_add_eq_or_of_lt v.isLt 1).symm

theorem finite_congr {s : Sign} {m m' : Nat} {e e' : Int} (hm : m = m') (he : e = e')
    (h : 0 < m) (h' : 0 < m') : UnpackedFloat.finite s m e h = .finite s m' e' h' := by
  subst hm he
  rfl

theorem unpack_eq (b : BitVec Format.binary64.numBits) :
    UnpackedFloat.unpack .binary64 b = (ofBits b.toNat).unpacked := by
  have hm := toNat_unpackMantissa b
  have he := toNat_unpackExponent b
  simp only [UnpackedFloat.unpack, ofBitVec_unpackSign]
  by_cases htop : b.toNat / hiddenBit % 2048 = 2047
  · rw [if_pos ((unpackExponent_eq_top_iff b).2 htop)]
    by_cases hzero : b.toNat % hiddenBit = 0
    · rw [if_pos ((unpackMantissa_eq_zero_iff b).2 hzero)]
      simp [ofBits, htop, hzero, unpacked]
    · rw [if_neg fun h => hzero ((unpackMantissa_eq_zero_iff b).1 h)]
      simp [ofBits, htop, hzero, unpacked]
  · rw [if_neg fun h => htop ((unpackExponent_eq_top_iff b).1 h)]
    by_cases hlow : b.toNat / hiddenBit % 2048 = 0
    · rw [if_pos ((unpackExponent_eq_zero_iff b).2 hlow)]
      by_cases hzero : b.toNat % hiddenBit = 0
      · rw [dif_pos ((unpackMantissa_eq_zero_iff b).2 hzero)]
        simp [ofBits, hlow, hzero, unpacked]
      · rw [dif_neg fun h => hzero ((unpackMantissa_eq_zero_iff b).1 h)]
        have htop' : ¬(0 = 2047) := by decide
        simp only [ofBits, hlow, htop', unpacked, if_true, if_false]
        rw [dif_neg hzero]
        refine finite_congr hm ?_ _ _
        rw [he, hlow]
        rfl
    · rw [if_neg fun h => hlow ((unpackExponent_eq_zero_iff b).1 h)]
      have hpos : hiddenBit + b.toNat % hiddenBit ≠ 0 := by simp [hiddenBit]
      simp only [ofBits, htop, hlow, hpos, unpacked, if_false, dite_false]
      refine finite_congr ?_ ?_ _ _
      · exact (toNat_hidden_append (unpackMantissa b)).trans (by rw [hm])
      · rw [he]
        rfl

theorem unpack_toModel (x : Float) : x.toModel.unpack = (ofFloat x).unpacked := unpack_eq _

theorem ofFloat_eq_nan_iff {x : Float} : ofFloat x = .nan ↔ x.toModel.unpack = .notANumber := by
  rw [unpack_toModel]
  cases ofFloat x with
  | nan => simp [unpacked]
  | infinite s => simp [unpacked]
  | finite s m e =>
    simp only [unpacked]
    split <;> simp

theorem exists_finite {x : Float} (h : x.isFinite = true) :
    ∃ s m e, ofFloat x = .finite s m e := by
  change x.toModel.unpack.isFinite = true at h
  rw [unpack_toModel] at h
  cases hx : ofFloat x with
  | nan =>
    rw [hx] at h
    cases h
  | infinite s =>
    rw [hx] at h
    cases h
  | finite s m e => exact ⟨s, m, e, rfl⟩

theorem ofFloat_eq_finite {x : Float} {s : Bool} {m : Nat} {e : Int} {h : 0 < m}
    (hx : x.toModel.unpack = .finite (sign s) m e h) : ofFloat x = .finite s m e := by
  rw [unpack_toModel] at hx
  generalize ofFloat x = b at hx
  cases b with
  | nan => cases hx
  | infinite s' => cases hx
  | finite s' m' e' =>
    simp only [unpacked] at hx
    split at hx
    · cases hx
    · injection hx with hsign hm he
      have hs : s' = s := by cases s <;> cases s' <;> first | rfl | cases hsign
      rw [hs, hm, he]

theorem ofFloat_eq_infinite {x : Float} {s : Bool}
    (hx : x.toModel.unpack = .infinity (sign s)) : ofFloat x = .infinite s := by
  rw [unpack_toModel] at hx
  generalize ofFloat x = b at hx
  cases b with
  | nan => cases hx
  | infinite s' =>
    injection hx with hsign
    cases s <;> cases s' <;> first | rfl | cases hsign
  | finite s' m' e' =>
    simp only [unpacked] at hx
    split at hx <;> cases hx

theorem ofFloat_eq_zero {x : Float} {s : Bool} (hx : x.toModel.unpack = .zero (sign s)) :
    ofFloat x = .finite s 0 (-1074) := by
  rw [unpack_toModel] at hx
  cases hb : ofFloat x with
  | nan => simp [hb, unpacked] at hx
  | infinite s' => simp [hb, unpacked] at hx
  | finite s' m' e' =>
    rw [hb] at hx
    simp only [unpacked] at hx
    split at hx
    · rename_i hm
      subst hm
      obtain rfl : e' = -1074 := (canonical_ofBits hb).le.resolve_left (by decide)
      injection hx with hsign
      have hs : s' = s := by cases s <;> cases s' <;> first | rfl | cases hsign
      rw [hs]
    · cases hx

end Binary

section Pack

variable {s : Sign} {m : Nat} {e : Int}

theorem log2_of_leading (hlo : Binary.hiddenBit ≤ m) (hhi : m < 2 * Binary.hiddenBit) :
    m.log2 = 52 := by
  have hne : m ≠ 0 := by
    rintro rfl
    exact absurd hlo (by decide)
  exact (Nat.log2_eq_iff hne).2 ⟨hlo, hhi⟩

theorem unpack_packComponents_ne_nan {exponent : BitVec 11} {mantissa : BitVec 52}
    (he : exponent ≠ -1#11) :
    UnpackedFloat.unpack .binary64 (packComponents .binary64 s exponent mantissa) ≠
      .notANumber := by
  simp only [UnpackedFloat.unpack, unpackExponent_packComponents]
  rw [if_neg he]
  split
  · split <;> simp
  · simp

theorem unpack_packedInfinity (s : Sign) :
    UnpackedFloat.unpack .binary64 (packedInfinity .binary64 s) = .infinity s := by
  simp only [packedInfinity, UnpackedFloat.unpack, unpackExponent_packComponents,
    unpackMantissa_packComponents, unpackSign_packComponents, Sign.ofBitVec_toBitVec]
  rw [if_true, if_pos (show (0 : BitVec 52) = 0#52 from rfl)]

theorem unpack_packedInfinity_ne_nan :
    UnpackedFloat.unpack .binary64 (packedInfinity .binary64 s) ≠ .notANumber := by
  rw [unpack_packedInfinity]
  simp

theorem ofNat_ne_top {n : Nat} (h : ¬2048 ≤ n + 1) : BitVec.ofNat 11 n ≠ -1#11 := by
  rw [ne_eq, ← BitVec.toNat_inj, BitVec.toNat_ofNat, Nat.mod_eq_of_lt (by omega)]
  change ¬n = 2047
  omega

theorem unpack_pack_ne_nan {u : UnpackedFloat} (h : u ≠ .notANumber) :
    (Float.Model.pack u).unpack ≠ .notANumber := by
  change UnpackedFloat.unpack .binary64 (UnpackedFloat.pack .binary64 u) ≠ _
  cases u with
  | notANumber => exact absurd rfl h
  | infinity s => exact unpack_packedInfinity_ne_nan
  | zero s => exact unpack_packComponents_ne_nan (by decide)
  | finite s m e hm =>
    simp only [UnpackedFloat.pack]
    split
    · exact unpack_packedInfinity_ne_nan
    · rename_i hexp
      split
      · exact unpack_packComponents_ne_nan (ofNat_ne_top hexp)
      · exact unpack_packComponents_ne_nan (by decide)

/-- A float with its leading bit in place comes back from its bit pattern. -/
theorem unpack_pack_normal (h : 0 < m) (hlo : Binary.hiddenBit ≤ m)
    (hhi : m < 2 * Binary.hiddenBit) (helo : -1074 ≤ e) (hehi : e ≤ 971) :
    (Float.Model.pack (.finite s m e h)).unpack = .finite s m e h := by
  change UnpackedFloat.unpack .binary64 (UnpackedFloat.pack .binary64 _) = _
  obtain ⟨n, hn⟩ : ∃ n : Nat, (n : Int) = e + 1075 := ⟨(e + 1075).toNat, by omega⟩
  have htop : ¬2048 ≤ n + 1 := by omega
  have hbiased : (e + (Format.binary64.exponentBias : Int) + (52 : Nat)).toNat = n := by
    change (e + 1023 + 52).toNat = n
    omega
  have hlow : BitVec.ofNat 11 n ≠ 0#11 := by
    rw [ne_eq, ← BitVec.toNat_inj, BitVec.toNat_ofNat, Nat.mod_eq_of_lt (by omega)]
    change ¬n = 0
    omega
  have hpack : UnpackedFloat.pack .binary64 (.finite s m e h) =
      packComponents .binary64 s (BitVec.ofNat 11 n) (BitVec.ofNat 52 m) := by
    simp only [UnpackedFloat.pack]
    have hbits : m.log2 + 1 = Format.binary64.mantissaBits := by
      rw [log2_of_leading hlo hhi]
      rfl
    rw [hbiased, if_neg htop, if_pos hbits]
  rw [hpack]
  simp only [UnpackedFloat.unpack, unpackExponent_packComponents, unpackMantissa_packComponents,
    unpackSign_packComponents, Sign.ofBitVec_toBitVec]
  rw [if_neg (ofNat_ne_top htop), if_neg hlow]
  refine Binary.finite_congr ?_ ?_ _ _
  · refine (Binary.toNat_hidden_append _).trans ?_
    rw [BitVec.toNat_ofNat]
    have : Binary.hiddenBit = 2 ^ 52 := rfl
    omega
  · rw [BitVec.toNat_ofNat, Nat.mod_eq_of_lt (by omega)]
    change (n : Int) - (1023 + 52) = e
    omega

/-- A float with the least exponent comes back from its bit pattern. -/
theorem unpack_pack_least (h : 0 < m) (hlt : m < Binary.hiddenBit) :
    (Float.Model.pack (.finite s m (-1074) h)).unpack = .finite s m (-1074) h := by
  change UnpackedFloat.unpack .binary64 (UnpackedFloat.pack .binary64 _) = _
  have hlog : m.log2 < 52 := (Nat.log2_lt (Nat.ne_of_gt h)).2 hlt
  have hpack : UnpackedFloat.pack .binary64 (.finite s m (-1074) h) =
      packComponents .binary64 s 0#11 (BitVec.ofNat 52 m) := by
    have hbits : m.log2 + 1 ≠ Format.binary64.mantissaBits := by
      change m.log2 + 1 ≠ 53
      omega
    simp only [UnpackedFloat.pack]
    rw [if_neg (by decide), if_neg hbits]
  have hmantissa : (BitVec.ofNat 52 m).toNat = m := by
    rw [BitVec.toNat_ofNat]
    exact Nat.mod_eq_of_lt hlt
  have hne : BitVec.ofNat 52 m ≠ 0#52 := by
    rw [ne_eq, ← BitVec.toNat_inj, hmantissa]
    exact Nat.ne_of_gt h
  rw [hpack]
  simp only [UnpackedFloat.unpack, unpackExponent_packComponents, unpackMantissa_packComponents,
    unpackSign_packComponents, Sign.ofBitVec_toBitVec]
  rw [if_neg (by decide), if_true, dif_neg hne]
  exact Binary.finite_congr hmantissa rfl _ _

theorem unpack_pack_of_canonical (hc : Binary.Canonical m e) (helo : -1074 ≤ e) (hehi : e ≤ 971)
    (h : 0 < m) : (Float.Model.pack (.finite s m e h)).unpack = .finite s m e h := by
  by_cases hlead : Binary.hiddenBit ≤ m
  · exact unpack_pack_normal h hlead hc.lt helo hehi
  · obtain rfl := hc.le.resolve_left hlead
    exact unpack_pack_least h (Nat.lt_of_not_le hlead)

/-- A float with too large an exponent becomes infinite. -/
theorem unpack_pack_large (h : 0 < m) (he : 971 < e) :
    (Float.Model.pack (.finite s m e h)).unpack = .infinity s := by
  change UnpackedFloat.unpack .binary64 (UnpackedFloat.pack .binary64 _) = _
  have hlarge : 2 ^ Format.binary64.exponentBits ≤
      (e + (Format.binary64.exponentBias : Int) + (52 : Nat)).toNat + 1 := by
    change 2048 ≤ (e + 1023 + 52).toNat + 1
    omega
  have hpack : UnpackedFloat.pack .binary64 (.finite s m e h) = packedInfinity .binary64 s := by
    simp only [UnpackedFloat.pack]
    exact if_pos hlarge
  rw [hpack, unpack_packedInfinity]

end Pack

section Whole

variable {s : Sign} {m : Nat} {e : Int}

theorem targetExponent_of_leading (hlo : Binary.hiddenBit ≤ m) (hhi : m < 2 * Binary.hiddenBit)
    (he : -1074 ≤ e) (k : Nat) :
    Format.binary64.targetExponent (totalExponent (m * 2 ^ k) (e - k)) = e := by
  have hpos : 0 < m := Nat.lt_of_lt_of_le (by decide) hlo
  have hlog : (m * 2 ^ k).log2 = 52 + k := by
    rw [Nat.log2_eq_iff (Nat.ne_of_gt (Nat.mul_pos hpos (Nat.two_pow_pos k))), Nat.pow_add,
      Nat.add_right_comm, Nat.pow_add]
    exact ⟨Nat.mul_le_mul_right _ hlo, Nat.mul_lt_mul_of_pos_right hhi (Nat.two_pow_pos k)⟩
  change max (((m * 2 ^ k).log2 : Int) + 1 + (e - k) - (1 + 52 : Nat)) (-1074) = e
  rw [hlog]
  omega

theorem shiftRight_exact (m k : Nat) :
    (ExtendedMantissa.mk (m * 2 ^ k) false false) >>> k = ⟨m, false, false⟩ := by
  change k.repeat ExtendedMantissa.shiftRightOne ⟨m * 2 ^ k, false, false⟩ = _
  induction k generalizing m with
  | zero => simp [Nat.repeat]
  | succ k ih =>
    rw [Nat.repeat, Nat.pow_succ', ← Nat.mul_assoc, ih]
    simp [ExtendedMantissa.shiftRightOne]

theorem shiftToTargetExponent_exact (hlo : Binary.hiddenBit ≤ m)
    (hhi : m < 2 * Binary.hiddenBit) (he : -1074 ≤ e) (k : Nat) :
    shiftToTargetExponent .binary64 (m * 2 ^ k) (e - k) .exact = (⟨m, false, false⟩, e) := by
  have hshift : (e - (e - (k : Int))).toNat = k := by omega
  simp only [shiftToTargetExponent, shiftToExponent, targetExponent_of_leading hlo hhi he k,
    hshift, ExtendedMantissa.ofMantissaAndAccuracy, shiftRight_exact]
  rw [Int.sub_add_cancel]

theorem roundWithAccuracy_exact (hlo : Binary.hiddenBit ≤ m) (hhi : m < 2 * Binary.hiddenBit)
    (he : -1074 ≤ e) (k : Nat) (h : 0 < m) :
    roundWithAccuracy .binary64 s (m * 2 ^ k) (e - k) .exact = .finite s m e h := by
  have hzero := shiftToTargetExponent_exact hlo hhi he 0
  rw [Nat.pow_zero, Nat.mul_one, Int.natCast_zero, Int.sub_zero] at hzero
  simp only [roundWithAccuracy, shiftToTargetExponent_exact hlo hhi he k,
    ExtendedMantissa.roundedMantissa, ExtendedMantissa.accuracy, Accuracy.roundToNearestEven, hzero]
  rw [dif_neg (Nat.ne_of_gt h)]

/-- A whole number with its leading bit in place. -/
def leading (n : Nat) : Nat := n * 2 ^ (52 - n.log2)

def leadingExponent (n : Nat) : Int := (n.log2 : Int) - 52

variable {n : Nat}

theorem log2_le (hn : 0 < n) (hlt : n < 2 ^ 53) : n.log2 ≤ 52 :=
  Nat.le_of_lt_succ ((Nat.log2_lt (Nat.ne_of_gt hn)).2 hlt)

theorem leading_bounds (hn : 0 < n) (hlt : n < 2 ^ 53) :
    Binary.hiddenBit ≤ leading n ∧ leading n < 2 * Binary.hiddenBit := by
  have hlog := log2_le hn hlt
  obtain ⟨hlo, hhi⟩ := (Nat.log2_eq_iff (Nat.ne_of_gt hn)).1 (rfl : n.log2 = n.log2)
  have hpow : 2 ^ n.log2 * 2 ^ (52 - n.log2) = Binary.hiddenBit := by
    rw [← Nat.pow_add, Nat.add_sub_cancel' hlog]
    rfl
  refine ⟨?_, ?_⟩
  · rw [← hpow]
    exact Nat.mul_le_mul_right _ hlo
  · rw [← hpow, ← Nat.mul_assoc, ← Nat.pow_succ']
    exact Nat.mul_lt_mul_of_pos_right hhi (Nat.two_pow_pos _)

theorem leading_pos (hn : 0 < n) : 0 < leading n := Nat.mul_pos hn (Nat.two_pow_pos _)

theorem ofNat_eq (hn : 0 < n) (hlt : n < 2 ^ 53) : UnpackedFloat.ofNat .binary64 n =
    .finite .positive (leading n) (leadingExponent n) (leading_pos hn) := by
  have hlog := log2_le hn hlt
  obtain ⟨hlo, hhi⟩ := leading_bounds hn hlt
  have hgt : compare (n : Int) 0 = .gt := by
    rw [Int.compare_eq_gt]
    omega
  have htarget : Format.binary64.targetExponent (totalExponent n 0) = leadingExponent n := by
    change max ((n.log2 : Int) + 1 + 0 - (1 + 52 : Nat)) (-1074) = (n.log2 : Int) - 52
    omega
  have hexp : (0 - leadingExponent n).toNat = 52 - n.log2 := by
    rw [leadingExponent]
    omega
  have hround := roundWithAccuracy_exact (s := .positive) hlo hhi
    (show -1074 ≤ leadingExponent n by rw [leadingExponent]; omega) 0 (leading_pos hn)
  rw [Nat.pow_zero, Nat.mul_one, Int.natCast_zero, Int.sub_zero] at hround
  simp only [UnpackedFloat.ofNat, UnpackedFloat.ofInt, UnpackedFloat.normalize, hgt,
    UnpackedFloat.round, Int.toNat_natCast, htarget, decreaseExponent, hexp, Nat.shiftLeft_eq]
  rw [← hround, leading]
  congr 1
  rw [leadingExponent]
  omega

theorem pack_ofNat (hn : 0 < n) (hlt : n < 2 ^ 53) :
    (Float.Model.pack (UnpackedFloat.ofNat .binary64 n)).unpack =
      .finite .positive (leading n) (leadingExponent n) (leading_pos hn) := by
  have hlog := log2_le hn hlt
  obtain ⟨hlo, hhi⟩ := leading_bounds hn hlt
  rw [ofNat_eq hn hlt]
  refine unpack_pack_normal _ hlo hhi ?_ ?_ <;>
  · rw [leadingExponent]
    omega

theorem unpack_toFloat (hn : 0 < n) (hlt : n < 2 ^ 53) : n.toUInt64.toFloat.toModel.unpack =
    .finite .positive (leading n) (leadingExponent n) (leading_pos hn) := by
  have hnat : n.toUInt64.toNat = n := by
    rw [UInt64.toNat_ofNat', Nat.mod_eq_of_lt (by omega)]
  change (Float.Model.pack (UnpackedFloat.ofNat .binary64 n.toUInt64.toNat)).unpack = _
  rw [hnat, pack_ofNat hn hlt]

/-- A whole number is read from its decimal by multiplying with one. -/
theorem unpack_ofNat (hn : 0 < n) (hlt : n < 2 ^ 53) : (Float.ofNat n).toModel.unpack =
    .finite .positive (leading n) (leadingExponent n) (leading_pos hn) := by
  have hlog := log2_le hn hlt
  obtain ⟨hlo, hhi⟩ := leading_bounds hn hlt
  have hmul : Float.ofNat n = n.toUInt64.toFloat * Float.ofBits 0x3FF0000000000000 := by
    change Float.ofScientific n false 0 = _
    unfold Float.ofScientific
    rw [dif_pos ⟨hlt, by decide⟩]
    rfl
  have hone : (Float.ofBits 0x3FF0000000000000).toModel.unpack =
      .finite .positive Binary.hiddenBit (-52) (by decide) := by
    rw [Binary.unpack_toModel]
    rfl
  have hround := roundWithAccuracy_exact (s := .positive) hlo hhi
    (show -1074 ≤ leadingExponent n by rw [leadingExponent]; omega) 52 (leading_pos hn)
  rw [hmul]
  change (Float.Model.pack (UnpackedFloat.mul .binary64 n.toUInt64.toFloat.toModel.unpack
    (Float.ofBits 0x3FF0000000000000).toModel.unpack)).unpack = _
  rw [unpack_toFloat hn hlt, hone]
  change (Float.Model.pack (roundWithAccuracy .binary64 .positive _ _ .exact)).unpack = _
  have hexp : leadingExponent n + -52 = leadingExponent n - (52 : Nat) := by omega
  rw [hexp, show leading n * Binary.hiddenBit = leading n * 2 ^ 52 from rfl, hround]
  refine unpack_pack_normal _ hlo hhi ?_ ?_ <;>
  · rw [leadingExponent]
    omega

end Whole

end Spreadsheet.Number
