import Spreadsheet.Number.Shortest
import Spreadsheet.Proofs.Number.Nearest

/-!
The shortest digits of a float lie in its interval. The finest of the grids that are tried is finer
than half the interval, so that one of them has a point in it.
-/
namespace Spreadsheet.Number

variable {m d n : ℕ} {e k : ℤ} {i : Interval}

namespace Interval

/-- The number lies in the interval, and on an end only if the ends belong to it. -/
structure Contains (i : Interval) (x : ℚ) : Prop where
  low : i.low * 2 ^ i.exponent ≤ x
  high : x ≤ i.high * 2 ^ i.exponent
  inside : i.closed = false → i.low * 2 ^ i.exponent < x ∧ x < i.high * 2 ^ i.exponent

/-- The unit in which interval and grid are compared. -/
def unit (i : Interval) (k : ℤ) : ℚ := 2 ^ (-i.exponent).toNat * 10 ^ (-k).toNat

theorem unit_pos (i : Interval) (k : ℤ) : 0 < i.unit k := by
  unfold unit
  positivity

theorem zpow_mul_pow {a : ℚ} (ha : a ≠ 0) (j : ℤ) : a ^ j * a ^ (-j).toNat = a ^ j.toNat := by
  rw [← zpow_natCast, ← zpow_natCast, ← zpow_add₀ ha]
  congr 1
  omega

theorem ends_eq (i : Interval) (k : ℤ) :
    ((i.scale k).ends : ℚ) = 2 ^ i.exponent * i.unit k := by
  have htwo := zpow_mul_pow (two_ne_zero (α := ℚ)) i.exponent
  simp only [scale, twoTo, tenTo, unit, Nat.pow_eq]
  push_cast
  rw [← htwo, mul_assoc]

theorem steps_eq (i : Interval) (k : ℤ) :
    ((i.scale k).steps : ℚ) = 10 ^ k * i.unit k := by
  have hten := zpow_mul_pow (show (10 : ℚ) ≠ 0 by norm_num) k
  simp only [scale, twoTo, tenTo, unit, Nat.pow_eq]
  push_cast
  rw [← hten]
  ring

section Compare

variable (i) (k) (a b : ℕ)

theorem ends_le_steps_iff : a * (i.scale k).ends ≤ b * (i.scale k).steps ↔
    (a : ℚ) * 2 ^ i.exponent ≤ b * 10 ^ k := by
  rw [← Nat.cast_le (α := ℚ), Nat.cast_mul, Nat.cast_mul, ends_eq, steps_eq, ← mul_assoc,
    ← mul_assoc, mul_le_mul_iff_left₀ (i.unit_pos k)]

theorem steps_le_ends_iff : b * (i.scale k).steps ≤ a * (i.scale k).ends ↔
    (b : ℚ) * 10 ^ k ≤ a * 2 ^ i.exponent := by
  rw [← Nat.cast_le (α := ℚ), Nat.cast_mul, Nat.cast_mul, ends_eq, steps_eq, ← mul_assoc,
    ← mul_assoc, mul_le_mul_iff_left₀ (i.unit_pos k)]

end Compare

/-- A grid point is accepted just where it lies in the interval. -/
theorem contains_of_holds (h : i.holds (i.scale k) d = true) : i.Contains (d * 10 ^ k) := by
  unfold holds at h
  cases hclosed : i.closed with
  | true =>
    rw [if_pos hclosed, Bool.and_eq_true, decide_eq_true_eq, decide_eq_true_eq, ends_le_steps_iff,
      steps_le_ends_iff] at h
    exact ⟨h.1, h.2, fun hopen => absurd (hclosed.symm.trans hopen) nofun⟩
  | false =>
    rw [if_neg (by simp [hclosed]), Bool.and_eq_true, decide_eq_true_eq, decide_eq_true_eq,
      ← not_le, ← not_le, ends_le_steps_iff, steps_le_ends_iff, not_le, not_le] at h
    exact ⟨h.1.le, h.2.le, fun _ => h⟩

theorem holds_of_strict (hlow : i.low * (i.scale k).ends < d * (i.scale k).steps)
    (hhigh : d * (i.scale k).steps < i.high * (i.scale k).ends) :
    i.holds (i.scale k) d = true := by
  unfold holds
  split <;> simp [hlow, hhigh, hlow.le, hhigh.le]

theorem holds_of_onGrid? (h : i.onGrid? k = some d) : i.holds (i.scale k) d = true := by
  unfold onGrid? at h
  simp only at h
  split at h
  · rename_i h₁ h₂
    split at h <;> obtain rfl := Option.some.inj h
    · exact h₁
    · exact h₂
  · rename_i h₁ _
    obtain rfl := Option.some.inj h
    exact h₁
  · rename_i _ h₂
    obtain rfl := Option.some.inj h
    exact h₂
  · cases h

/-- A grid finer than the upper half of the interval has a point there. -/
theorem exists_onGrid? (hlow : i.low < i.point)
    (hgrid : (10 : ℚ) ^ k < (i.high - i.point) * 2 ^ i.exponent) :
    ∃ d, i.onGrid? k = some d := by
  have hsteps : 0 < (i.scale k).steps := Nat.mul_pos (twoTo_pos _) (tenTo_pos _)
  have hends : 0 < (i.scale k).ends := Nat.mul_pos (twoTo_pos _) (tenTo_pos _)
  have hfine : i.point * (i.scale k).ends + (i.scale k).steps < i.high * (i.scale k).ends := by
    have hunit := mul_lt_mul_of_pos_right hgrid (i.unit_pos k)
    rw [← Nat.cast_lt (α := ℚ)]
    push_cast
    rw [ends_eq, steps_eq]
    linarith
  generalize hd : i.point * (i.scale k).ends / (i.scale k).steps = d
  have hfloor := Nat.div_add_mod (i.point * (i.scale k).ends) (i.scale k).steps
  have hrest := Nat.mod_lt (i.point * (i.scale k).ends) hsteps
  rw [hd] at hfloor
  have hholds : i.holds (i.scale k) (d + 1) = true := by
    apply holds_of_strict
    · have := Nat.mul_lt_mul_of_pos_right hlow hends
      rw [Nat.add_mul, Nat.mul_comm d]
      omega
    · rw [Nat.add_mul, Nat.mul_comm d]
      omega
  unfold onGrid?
  simp only [hd, hholds]
  cases i.holds (i.scale k) d with
  | true => exact ⟨_, rfl⟩
  | false => exact ⟨_, rfl⟩

end Interval

theorem exists_coarsest (n : ℕ) (h : ∃ d, i.onGrid? (k - n) = some d) :
    ∃ d k', coarsest i (n + 1) k = ⟨d, k'⟩ ∧ i.Contains (d * 10 ^ k') := by
  induction n generalizing k with
  | zero =>
    obtain ⟨d, hd⟩ := h
    rw [Nat.cast_zero, sub_zero] at hd
    refine ⟨d, k, ?_, Interval.contains_of_holds (Interval.holds_of_onGrid? hd)⟩
    simp only [coarsest, hd]
  | succ n ih =>
    unfold coarsest
    cases hk : i.onGrid? k with
    | some d => exact ⟨d, k, rfl, Interval.contains_of_holds (Interval.holds_of_onGrid? hk)⟩
    | none =>
      apply ih
      rwa [show k - 1 - (n : ℤ) = k - (n + 1 : ℕ) by push_cast; ring]

section Ends

variable (hm : 0 < m)
include hm

theorem low_ofSignificand (e : ℤ) :
    ((Interval.ofSignificand m e).low : ℚ) * 2 ^ (e - 2) = (m - reach m e) * 2 ^ e := by
  have hfour : (2 : ℚ) ^ e = 4 * 2 ^ (e - 2) := by
    rw [zpow_sub₀ two_ne_zero]
    norm_num
    ring
  unfold Interval.ofSignificand reach
  rw [hfour]
  split
  · rw [Nat.cast_sub (by omega)]
    push_cast
    ring
  · rw [Nat.cast_sub (by omega)]
    push_cast
    ring

theorem nearest_of_contains {x : ℚ} (h : (Interval.ofSignificand m e).Contains x) :
    Nearest m e x := by
  have hhigh : ((Interval.ofSignificand m e).high : ℚ) * 2 ^ (e - 2) = (m + 1 / 2) * 2 ^ e := by
    rw [zpow_sub₀ two_ne_zero]
    simp only [Interval.ofSignificand]
    push_cast
    ring
  have hlow := low_ofSignificand hm e
  constructor
  · exact hlow ▸ h.low
  · exact hhigh ▸ h.high
  · intro hodd
    rw [← hlow, ← hhigh]
    exact h.inside (by simp [Interval.ofSignificand, hodd])

end Ends

/-- Three powers of ten are less than ten powers of two, and ninety-three powers of two less than
twenty-eight powers of ten. -/
theorem ten_zpow_lt_two_zpow {a b : ℤ} (h : 10 * a < 3 * b) (h' : 93 * a < 28 * b) :
    (10 : ℚ) ^ a < 2 ^ b := by
  rcases le_total 0 a with ha | ha
  · apply lt_of_pow_lt_pow_left₀ 3 (by positivity)
    calc ((10 : ℚ) ^ a) ^ 3 = (10 ^ 3) ^ a := by rw [← zpow_natCast, ← zpow_natCast, zpow_comm]
      _ ≤ (2 ^ 10) ^ a := zpow_le_zpow_left₀ ha (by norm_num) (by norm_num)
      _ = 2 ^ (10 * a) := by rw [zpow_mul]; rfl
      _ < 2 ^ (3 * b) := zpow_lt_zpow_right₀ (by norm_num) h
      _ = (2 ^ b) ^ 3 := by rw [mul_comm, zpow_mul]; rfl
  · have hle : ((2 : ℚ) ^ 93) ^ (-a) ≤ (10 ^ 28) ^ (-a) :=
      zpow_le_zpow_left₀ (by omega) (by norm_num) (by norm_num)
    apply lt_of_pow_lt_pow_left₀ 28 (by positivity)
    calc ((10 : ℚ) ^ a) ^ 28 = (10 ^ 28) ^ a := by
          rw [← zpow_natCast, ← zpow_natCast, zpow_comm]
      _ ≤ (2 ^ 93) ^ a := by
        rw [← neg_neg a, zpow_neg, zpow_neg _ (-a)]
        exact inv_anti₀ (by positivity) hle
      _ = 2 ^ (93 * a) := by rw [zpow_mul]; rfl
      _ < 2 ^ (28 * b) := zpow_lt_zpow_right₀ (by norm_num) h'
      _ = (2 ^ b) ^ 28 := by rw [mul_comm, zpow_mul]; rfl

/-- The digits of a float are those of a decimal that rounds to it. -/
theorem nearest_shortestDigits (hc : Binary.Canonical m e) (he : -1074 ≤ e) (he' : e ≤ 971)
    (hm : 0 < m) : ∃ c k, shortestDigits m e = ⟨c, k⟩ ∧ 0 < c ∧ Nearest m e (c * 10 ^ k) := by
  have hlog : m.log2 ≤ 52 := Nat.le_of_lt_succ ((Nat.log2_lt (Nat.ne_of_gt hm)).2 hc.lt)
  have hpoint : (4 * m).log2 = m.log2 + 2 := by
    rw [show 4 * m = 2 * (2 * m) by ring, Nat.log2_two_mul (by omega), Nat.log2_two_mul (by omega)]
  have hceiling : (Interval.ofSignificand m e).ceiling - (23 : ℕ) =
      (m.log2 + e) * 30103 / 100000 - 20 := by
    simp only [Interval.ceiling, Interval.ofSignificand, hpoint]
    push_cast
    rw [show (m.log2 : ℤ) + 2 + (e - 2) = m.log2 + e by ring]
    ring
  have hlow : (Interval.ofSignificand m e).low < (Interval.ofSignificand m e).point := by
    simp only [Interval.ofSignificand]
    split <;> omega
  have hgrid : (10 : ℚ) ^ ((Interval.ofSignificand m e).ceiling - (23 : ℕ)) <
      ((Interval.ofSignificand m e).high - (Interval.ofSignificand m e).point) *
        2 ^ (Interval.ofSignificand m e).exponent := by
    have hhalf : ((Interval.ofSignificand m e).high - (Interval.ofSignificand m e).point : ℚ) *
        2 ^ (Interval.ofSignificand m e).exponent = 2 ^ (e - 1) := by
      simp only [Interval.ofSignificand]
      rw [zpow_sub₀ two_ne_zero, zpow_sub₀ two_ne_zero]
      push_cast
      ring
    rw [hhalf, hceiling]
    exact ten_zpow_lt_two_zpow (by omega) (by omega)
  obtain ⟨c, k, hdigits, hcontains⟩ :=
    exists_coarsest 23 (Interval.exists_onGrid? hlow hgrid)
  have hnearest := nearest_of_contains hm hcontains
  refine ⟨c, k, ?_, ?_, hnearest⟩
  · unfold shortestDigits
    rw [if_neg (Nat.ne_of_gt hm)]
    exact hdigits
  · rcases Nat.eq_zero_or_pos c with rfl | hpos
    · have hone : (1 : ℚ) ≤ m := by exact_mod_cast hm
      have hreach := reach_le m e
      have hzero := hnearest.low
      have hpos : 0 < (m - reach m e) * (2 : ℚ) ^ e := mul_pos (by linarith) (by positivity)
      rw [Nat.cast_zero, zero_mul] at hzero
      linarith
    · exact hpos

end Spreadsheet.Number
