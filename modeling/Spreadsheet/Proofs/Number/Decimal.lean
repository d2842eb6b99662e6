import Spreadsheet.Number.Decimal
import Spreadsheet.Proofs.Number.Reading

/-!
The decimal of a float. Turning halvings into tenths keeps the number, up to the bits that a
coefficient of 96 bits has no room for. The digits beyond the precision are then dropped one by one,
each drop rounding what the last one left, so that the decimal is not always the nearest: it is less
than five ninths of a last place above the number, and less than four ninths below.
-/
namespace Spreadsheet.Number

namespace Decimal

variable {v : ℚ} {c m s t n : ℕ} {negative : Bool} {x : Float} {e : ℤ}

section Halvings

/-- The part of a number that is lost where a coefficient is halved for lack of room. -/
def loss : ℚ := 5 / 2 ^ 96

/-- The number under conversion with `n` halvings left. -/
def Conversion.value (p : Conversion) (n : ℕ) : ℚ := p.coefficient * 5 ^ n * 10 ^ p.tens

theorem value_five (m : ℕ) (k : ℤ) (n : ℕ) :
    Conversion.value ⟨5 * m, k⟩ n = Conversion.value ⟨m, k⟩ (n + 1) := by
  simp only [Conversion.value]
  push_cast
  ring

theorem value_half (m : ℕ) (k : ℤ) (n : ℕ) : Conversion.value ⟨m / 2, k + 1⟩ n =
    Conversion.value ⟨m, k⟩ (n + 1) - (m % 2 : ℕ) * 5 ^ (n + 1) * 10 ^ k := by
  have hm : ((m % 2 : ℕ) : ℚ) + 2 * (m / 2 : ℕ) = m := by exact_mod_cast Nat.mod_add_div m 2
  simp only [Conversion.value]
  rw [zpow_add_one₀ (by norm_num), ← hm]
  ring

/-- One halving less leaves the number or a little less. -/
theorem value_clearHalving (p : Conversion) (n : ℕ) : ∃ q, clearHalvings (n + 1) p =
    clearHalvings n q ∧ q.tens ≤ p.tens + 1 ∧ q.value n ≤ p.value (n + 1) ∧
      p.value (n + 1) * (1 - loss) ≤ q.value n := by
  obtain ⟨m, k⟩ := p
  have hpos : 0 ≤ Conversion.value ⟨m, k⟩ (n + 1) := by
    rw [Conversion.value]
    positivity
  have hless : Conversion.value ⟨m, k⟩ (n + 1) * (1 - loss) ≤ Conversion.value ⟨m, k⟩ (n + 1) :=
    mul_le_of_le_one_right hpos (by norm_num [loss])
  refine ⟨_, rfl, ?_⟩
  dsimp only
  split
  · rename_i heven
    have heq := value_half m k n
    rw [heven, Nat.cast_zero, zero_mul, zero_mul, sub_zero] at heq
    exact ⟨le_rfl, heq.le, heq ▸ hless⟩
  split
  · have heq := value_five m k n
    exact ⟨by simp, heq.le, heq ▸ hless⟩
  · rename_i hodd hlarge
    have hbit : m % 2 = 1 := by omega
    have hroom : (2 : ℚ) ^ 96 ≤ 5 * m := by exact_mod_cast Nat.le_of_not_lt hlarge
    have hlost : (5 : ℚ) ^ (n + 1) * 10 ^ k ≤ Conversion.value ⟨m, k⟩ (n + 1) * loss := by
      have hone : 1 ≤ (m : ℚ) * loss := by
        rw [loss]
        linarith
      calc (5 : ℚ) ^ (n + 1) * 10 ^ k ≤ m * loss * (5 ^ (n + 1) * 10 ^ k) :=
            le_mul_of_one_le_left (by positivity) hone
        _ = Conversion.value ⟨m, k⟩ (n + 1) * loss := by
          rw [Conversion.value]
          ring
    rw [value_half, hbit, Nat.cast_one, one_mul, mul_sub, mul_one]
    have hpow : (0 : ℚ) ≤ 5 ^ (n + 1) * 10 ^ k := by positivity
    exact ⟨le_rfl, by linarith, by linarith⟩

/-- Turning all halvings into tenths loses no more than that for each of them. -/
theorem value_clearHalvings (n : ℕ) (p : Conversion) :
    (clearHalvings n p).tens ≤ p.tens + n ∧ (clearHalvings n p).value 0 ≤ p.value n ∧
      p.value n * (1 - n * loss) ≤ (clearHalvings n p).value 0 := by
  induction n generalizing p with
  | zero => simp [clearHalvings]
  | succ n ih =>
    obtain ⟨q, hstep, htens, hle, hless⟩ := value_clearHalving p n
    obtain ⟨htens', hle', hless'⟩ := ih q
    rw [hstep]
    refine ⟨by push_cast; omega, hle'.trans hle, le_trans ?_ hless'⟩
    have hrest : n * loss * q.value n ≤ n * loss * p.value (n + 1) :=
      mul_le_mul_of_nonneg_left hle (mul_nonneg n.cast_nonneg (by norm_num [loss]))
    push_cast
    linarith

theorem clearHalvings_exact (c n : ℕ) (k : ℤ) :
    clearHalvings n ⟨c * 2 ^ n, k⟩ = ⟨c, k + n⟩ := by
  induction n generalizing k with
  | zero => simp [clearHalvings]
  | succ n ih =>
    have hpow : c * 2 ^ (n + 1) = c * 2 ^ n * 2 := by rw [pow_succ, mul_assoc]
    rw [clearHalvings, hpow, if_pos (Nat.mul_mod_left _ 2), Nat.mul_div_cancel _ two_pos, ih]
    congr 1
    push_cast
    ring

/-- Doublings are left as they are if the coefficient has room for all of them, and otherwise there
is no decimal. -/
theorem clearDoublings_eq (hc : c < 2 ^ 96) : clearDoublings n ⟨c, n⟩ =
    if c * 2 ^ n < 2 ^ 96 then some ⟨c * 2 ^ n, 0⟩ else none := by
  induction n generalizing c with
  | zero => rw [pow_zero, mul_one, if_pos hc, clearDoublings, Nat.cast_zero]
  | succ n ih =>
    have hbound : coefficientBound / 2 = 2 ^ 95 := rfl
    rw [clearDoublings, hbound]
    dsimp only
    split
    · rename_i hroom
      have hsucc : ((n + 1 : ℕ) : ℤ) - 1 = n := by omega
      rw [hsucc, ih (by omega), show c * 2 ^ (n + 1) = 2 * c * 2 ^ n by ring]
    · rename_i hroom
      have hlarge : 2 ^ 96 ≤ c * 2 ^ (n + 1) := by
        have hself : c ≤ c * 2 ^ n := Nat.le_mul_of_pos_right c (Nat.two_pow_pos n)
        rw [pow_succ 2 n, ← mul_assoc]
        omega
      rw [if_pos (by omega), if_neg (Nat.not_lt.2 hlarge)]

end Halvings

section Digits

/-- What is left of a number at a count of places, after digits were dropped one by one. -/
structure Near (v : ℚ) (c t : ℕ) : Prop where
  low : c - 5 / 9 < v * 10 ^ t
  high : v * 10 ^ t < c + 4 / 9

theorem Near.of_eq (h : v * 10 ^ t = c) : Near v c t := ⟨by linarith, by linarith⟩

/-- A drop adds at most half a place, and a tenth of what was added before. -/
theorem Near.dropDigit (h : Near v m (s + 1)) : Near v (dropDigit m) s := by
  obtain ⟨hlow, hhigh⟩ := h
  have hm : ((m % 10 : ℕ) : ℚ) + 10 * (m / 10 : ℕ) = m := by exact_mod_cast Nat.mod_add_div m 10
  rw [pow_succ, ← mul_assoc] at hlow hhigh
  unfold Decimal.dropDigit
  split
  · rename_i hup
    have hdigit : (5 : ℚ) ≤ (m % 10 : ℕ) := by exact_mod_cast hup
    have hdigit' : ((m % 10 : ℕ) : ℚ) ≤ 9 := by exact_mod_cast (by omega : m % 10 ≤ 9)
    constructor <;> push_cast <;> linarith
  · rename_i hdown
    have hdigit : (0 : ℚ) ≤ (m % 10 : ℕ) := Nat.cast_nonneg _
    have hdigit' : ((m % 10 : ℕ) : ℚ) ≤ 4 := by exact_mod_cast (by omega : m % 10 ≤ 4)
    constructor <;> linarith

/-- The places beyond some are dropped, or there is no digit left before they all are. -/
theorem limitScale_near (hv : 0 ≤ v) (n : ℕ) (h : Near v m (t + n)) :
    (∃ c, limitScale n m (t + n) = (c, t) ∧ Near v c t) ∨
      limitScale n m (t + n) = (0, 0) ∧ v * 10 ^ t < 17 / 18 := by
  induction n generalizing m with
  | zero => exact .inl ⟨m, rfl, h⟩
  | succ n ih =>
    rw [limitScale]
    split
    · rename_i hout
      have hm : (m : ℚ) ≤ 9 := by exact_mod_cast (by omega : m ≤ 9)
      have hten : (1 : ℚ) ≤ 10 ^ n := one_le_pow₀ (by norm_num)
      have hhigh := h.high
      have hmore : v * 10 ^ t ≤ v * 10 ^ t * 10 ^ n :=
        le_mul_of_one_le_right (by positivity) hten
      rw [← add_assoc, pow_succ, pow_add] at hhigh
      refine .inr ⟨rfl, ?_⟩
      linarith
    · exact ih h.dropDigit

/-- Digits are dropped until the coefficient is below the precision, and no more than needed. -/
theorem limitPrecision_near (h : Near v m s) : ∃ c t, limitPrecision m s = (c, t) ∧ t ≤ s ∧
    Near v c t ∧ (c < 2 ^ 52 ∨ t = 0) ∧
      (c = m ∧ t = s ∨ 2 ^ 52 - 5 / 9 < v * 10 ^ (t + 1)) := by
  induction s generalizing m with
  | zero => exact ⟨m, 0, by rw [limitPrecision], le_rfl, h, .inr rfl, .inl ⟨rfl, rfl⟩⟩
  | succ s ih =>
    rw [limitPrecision]
    split
    · rename_i hlong
      obtain ⟨c, t, hc, ht, hnear, hdigits, hmost⟩ := ih h.dropDigit
      refine ⟨c, t, hc, by omega, hnear, hdigits, .inr ?_⟩
      rcases hmost with ⟨-, rfl⟩ | hmost
      · have hbound : (2 : ℚ) ^ 52 ≤ m := by exact_mod_cast hlong
        have hlow := h.low
        linarith
      · exact hmost
    · rename_i hshort
      exact ⟨m, s + 1, rfl, le_rfl, h, .inl (Nat.lt_of_not_le hshort), .inl ⟨rfl, rfl⟩⟩

theorem stripZeros_eq (m s : ℕ) : ∃ c t, stripZeros m s = (c, t) ∧ t ≤ s ∧
    (c : ℚ) / 10 ^ t = m / 10 ^ s := by
  induction s generalizing m with
  | zero => exact ⟨m, 0, by rw [stripZeros], le_rfl, rfl⟩
  | succ s ih =>
    rw [stripZeros]
    split
    · rename_i hzero
      obtain ⟨c, t, hc, ht, heq⟩ := ih (m / 10)
      refine ⟨c, t, hc, by omega, ?_⟩
      have hm : (m : ℚ) = (m / 10 : ℕ) * 10 := by
        exact_mod_cast (by omega : m = m / 10 * 10)
      rw [heq, hm, pow_succ, mul_div_mul_right _ _ (by norm_num)]
    · exact ⟨m, s + 1, rfl, le_rfl, rfl⟩

/-- The decimal `c / 10 ^ t` has no more places and digits than there is room for, and one more place
would have been too much or of no use. -/
structure Settled (v : ℚ) (c t : ℕ) : Prop extends Near v c t where
  places : t ≤ maxScale
  digits : c < 2 ^ 52 ∨ t = 0
  most : t = maxScale ∨ v * 10 ^ t = c ∨ 2 ^ 52 - 5 / 9 < v * 10 ^ (t + 1)

/-- Zero stands for a number of one digit in the place behind the last one there is room for, even if
the digit is a nine. -/
def Vanishes (v : ℚ) (c t : ℕ) : Prop := c = 0 ∧ t = 0 ∧ v * 10 ^ maxScale < 17 / 18

theorem limitScale_settled (hv : 0 ≤ v) (h : v * 10 ^ s = m) :
    ∃ c t, limitScale (s - maxScale) m s = (c, t) ∧
      (Near v c t ∧ t ≤ maxScale ∧ (t = maxScale ∨ v * 10 ^ t = c) ∨ Vanishes v c t) := by
  rcases Nat.le_total s maxScale with hs | hs
  · rw [Nat.sub_eq_zero_of_le hs]
    exact ⟨m, s, rfl, .inl ⟨.of_eq h, hs, .inr h⟩⟩
  · obtain ⟨n, rfl⟩ := Nat.exists_eq_add_of_le hs
    rw [Nat.add_sub_cancel_left]
    obtain ⟨c, hc, hnear⟩ | ⟨hc, hout⟩ := limitScale_near hv n (.of_eq h)
    · exact ⟨c, _, hc, .inl ⟨hnear, le_rfl, .inl rfl⟩⟩
    · exact ⟨0, 0, hc, .inr ⟨rfl, rfl, hout⟩⟩

/-- The absolute value of a decimal. -/
def magnitude (d : Decimal) : ℚ := d.coefficient / 10 ^ d.scale

theorem exists_settle (hv : 0 ≤ v) (h : v * 10 ^ s = m) : ∃ d, settle negative m s = d ∧
    d.negative = negative ∧ d.scale ≤ maxScale ∧
      ∃ c t : ℕ, d.magnitude = c / 10 ^ t ∧ (Settled v c t ∨ Vanishes v c t) := by
  obtain ⟨m₁, s₁, hscale, hsettled⟩ := limitScale_settled hv h
  refine ⟨_, rfl, ?_⟩
  simp only [settle, hscale]
  rcases hsettled with ⟨hnear, hs, hmost⟩ | ⟨rfl, rfl, hout⟩
  · obtain ⟨c, t, hdigits, ht, hnear', hfew, hmost'⟩ := limitPrecision_near hnear
    obtain ⟨c', t', hstrip, ht', hvalue⟩ := stripZeros_eq c t
    rw [hdigits]
    dsimp only
    rw [hstrip]
    refine ⟨trivial, ht'.trans (ht.trans hs), c, t, hvalue, .inl ⟨hnear', ht.trans hs, hfew, ?_⟩⟩
    rcases hmost' with ⟨rfl, rfl⟩ | hmost'
    · exact hmost.imp_right .inl
    · exact .inr (.inr hmost')
  · exact ⟨trivial, Nat.zero_le _, 0, 0, rfl, .inr ⟨rfl, rfl, hout⟩⟩

end Digits

section Conversion

theorem loss_le (hn : n ≤ 1074) : n * loss ≤ 1 / 2 ^ 83 := by
  have hcast : (n : ℚ) ≤ 1074 := by exact_mod_cast hn
  have hloss : (0 : ℚ) ≤ loss := by norm_num [loss]
  calc n * loss ≤ 1074 * loss := mul_le_mul_of_nonneg_right hcast hloss
    _ ≤ 1 / 2 ^ 83 := by norm_num [loss]

theorem ofFloat?_doublings (hm : 0 < m) (hx : Binary.ofFloat x = .finite negative m n)
    (hlt : m < 2 ^ 96) : ofFloat? x =
      if m * 2 ^ n < 2 ^ 96 then some ⟨negative, m * 2 ^ n, 0⟩ else none := by
  have hneg : (-(n : ℤ)).toNat = 0 := by omega
  simp only [ofFloat?, hx]
  rw [if_neg (Nat.ne_of_gt hm), hneg, clearHalvings, Int.toNat_natCast, clearDoublings_eq hlt]
  split <;> rfl

theorem ofFloat?_halvings (hm : 0 < m) (hx : Binary.ofFloat x = .finite negative m (-n)) :
    ofFloat? x = some (settle negative (clearHalvings n ⟨m, -n⟩).coefficient
      (-(clearHalvings n ⟨m, -n⟩).tens).toNat) := by
  have htens := (value_clearHalvings n ⟨m, -n⟩).1
  dsimp only at htens
  have hpos : (-(n : ℤ)).toNat = 0 := by omega
  simp only [ofFloat?, hx]
  rw [if_neg (Nat.ne_of_gt hm), hpos, neg_neg, Int.toNat_natCast, clearDoublings, Option.bind_some,
    if_pos (by omega)]

theorem ofFloat?_zero (hx : Binary.ofFloat x = .finite negative 0 e) :
    ofFloat? x = some ⟨negative, 0, 0⟩ := by
  simp [ofFloat?, hx]

theorem ofFloat?_eq_none (hx : Binary.ofFloat x = .finite negative m e)
    (hlarge : (2 : ℚ) ^ 96 ≤ m * 2 ^ e) : ofFloat? x = none := by
  have hlt : m < 2 ^ 53 := (Binary.canonical_ofBits hx).lt
  have hm : 0 < m := by
    rcases Nat.eq_zero_or_pos m with rfl | hm
    · norm_num at hlarge
    · exact hm
  rcases Int.eq_nat_or_neg e with ⟨n, rfl | rfl⟩
  · rw [ofFloat?_doublings hm hx (by omega), if_neg]
    rw [zpow_natCast] at hlarge
    exact Nat.not_lt.2 (by exact_mod_cast hlarge)
  · have hle : (m : ℚ) * 2 ^ (-n : ℤ) ≤ m :=
      mul_le_of_le_one_right m.cast_nonneg (zpow_le_one_of_nonpos₀ (by norm_num) (by omega))
    have hlt : (m : ℚ) < 2 ^ 53 := by exact_mod_cast hlt
    linarith

theorem ofFloat?_whole (hx : Binary.ofFloat x = .finite negative m e)
    (hwhole : (m : ℚ) * 2 ^ e = c) (hsmall : c < 2 ^ 96) : ofFloat? x = some ⟨negative, c, 0⟩ := by
  have hlt : m < 2 ^ 53 := (Binary.canonical_ofBits hx).lt
  rcases Nat.eq_zero_or_pos m with rfl | hm
  · rw [Nat.cast_zero, zero_mul, eq_comm, Nat.cast_eq_zero] at hwhole
    rw [hwhole, ofFloat?_zero hx]
  rcases Int.eq_nat_or_neg e with ⟨n, rfl | rfl⟩
  · rw [zpow_natCast] at hwhole
    obtain rfl : m * 2 ^ n = c := by exact_mod_cast hwhole
    rw [ofFloat?_doublings hm hx (by omega), if_pos hsmall]
  · rw [zpow_neg, zpow_natCast, ← div_eq_mul_inv, div_eq_iff (by positivity)] at hwhole
    obtain rfl : m = c * 2 ^ n := by exact_mod_cast hwhole
    rw [ofFloat?_halvings hm hx, clearHalvings_exact]
    simp [settle, limitScale, limitPrecision, stripZeros]

theorem value_start (m n : ℕ) : Conversion.value ⟨m, -n⟩ n = m * 2 ^ (-n : ℤ) := by
  have hten : (10 : ℚ) ^ n = 5 ^ n * 2 ^ n := by rw [← mul_pow]; norm_num
  rw [Conversion.value, zpow_neg, zpow_neg, zpow_natCast, zpow_natCast, hten]
  field_simp

/-- The decimal `c / 10 ^ t` stands for a number, of which a coefficient has room for `v`. -/
def StandsFor (a : ℚ) (c t : ℕ) : Prop :=
  ∃ v, a * (1 - 1 / 2 ^ 83) ≤ v ∧ v ≤ a ∧ (Settled v c t ∨ Vanishes v c t)

theorem standsFor_self (c : ℕ) : StandsFor c c 0 := by
  have hself : (c : ℚ) * 10 ^ 0 = c := by simp
  refine ⟨c, mul_le_of_le_one_right c.cast_nonneg (by norm_num), le_rfl, .inl ?_⟩
  exact ⟨.of_eq hself, Nat.zero_le _, .inr rfl, .inr (.inl hself)⟩

theorem exists_ofFloat? (hx : Binary.ofFloat x = .finite negative m e)
    (hsmall : (m : ℚ) * 2 ^ e < 2 ^ 96) : ∃ d, ofFloat? x = some d ∧ d.negative = negative ∧
      d.scale ≤ maxScale ∧ ∃ c t : ℕ, d.magnitude = c / 10 ^ t ∧ StandsFor (m * 2 ^ e) c t := by
  have hwhole {c : ℕ} (hc : (m : ℚ) * 2 ^ e = c) : ∃ d, ofFloat? x = some d ∧
      d.negative = negative ∧ d.scale ≤ maxScale ∧
        ∃ c t : ℕ, d.magnitude = c / 10 ^ t ∧ StandsFor (m * 2 ^ e) c t := by
    rw [hc] at hsmall ⊢
    exact ⟨_, ofFloat?_whole hx hc (by exact_mod_cast hsmall), rfl, Nat.zero_le _, c, 0, rfl,
      standsFor_self c⟩
  rcases Nat.eq_zero_or_pos m with rfl | hm
  · exact hwhole (c := 0) (by simp)
  rcases Int.eq_nat_or_neg e with ⟨n, rfl | rfl⟩
  · exact hwhole (c := m * 2 ^ n) (by push_cast; rw [zpow_natCast])
  have hn : n ≤ 1074 := by
    have := (Binary.exponent_ofBits hx).1
    omega
  obtain ⟨htens, hle, hless⟩ := value_clearHalvings n ⟨m, -n⟩
  rw [value_start] at hle hless
  have hdecimal := ofFloat?_halvings hm hx
  generalize clearHalvings n ⟨m, -n⟩ = q at htens hle hless hdecimal
  have hscale : q.value 0 * 10 ^ (-q.tens).toNat = q.coefficient := by
    rw [Conversion.value, pow_zero, mul_one, mul_assoc, ← zpow_natCast, ← zpow_add₀ (by norm_num),
      Int.toNat_of_nonneg (by dsimp only at htens; omega), add_neg_cancel, zpow_zero, mul_one]
  have hpos : 0 ≤ q.value 0 := by
    rw [Conversion.value]
    positivity
  have hlow : (m : ℚ) * 2 ^ (-n : ℤ) * (1 - 1 / 2 ^ 83) ≤ q.value 0 := le_trans
    (mul_le_mul_of_nonneg_left (sub_le_sub_left (loss_le hn) 1) (by positivity)) hless
  obtain ⟨d, hd, hnegative, hplaces, c, t, hvalue, hsettled⟩ := exists_settle hpos hscale
  exact ⟨d, hd ▸ hdecimal, hnegative, hplaces, c, t, hvalue, q.value 0, hlow, hle, hsettled⟩

end Conversion

end Decimal

end Spreadsheet.Number
