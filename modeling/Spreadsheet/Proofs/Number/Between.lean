import Spreadsheet.Proofs.Number.Model

/-!
Whole numbers between one and a count. A float that is neither below one nor above the count has a
whole part between the two, however large its own significand is.
-/
namespace Spreadsheet.Number

open Float.Model Float.Model.UnpackedFloat

section Compare

variable {x y : Float} {s : Bool} {m m' : Nat} {e e' : Int} {h : 0 < m} {h' : 0 < m'} {n : Nat}

theorem lt_iff : x < y ↔ x.toModel.unpack.compare y.toModel.unpack = some .lt := by
  change decide (x.toModel < y.toModel) = true ↔ _
  rw [decide_eq_true_iff]
  exact beq_iff_eq

theorem not_positive_lt (hlt : (UnpackedFloat.finite .positive m e h).compare
    (.finite .positive m' e' h') ≠ some .lt) : e' < e ∨ e' = e ∧ m' ≤ m := by
  simp only [UnpackedFloat.compare, ne_eq, Option.some.injEq, Ordering.then_eq_lt,
    Int.compare_eq_lt, Int.compare_eq_eq, Nat.compare_eq_lt] at hlt
  omega

theorem of_not_lt_one (hx : Binary.ofFloat x = .finite s m e) (hlt : ¬x < 1) :
    s = false ∧ 0 < m ∧ (-52 < e ∨ e = -52 ∧ Binary.hiddenBit ≤ m) := by
  have hone : (1 : Float).toModel.unpack = .finite .positive Binary.hiddenBit (-52) (by decide) :=
    unpack_ofNat (by decide) (by decide)
  rw [lt_iff, hone, Binary.unpack_toModel, hx, Binary.unpacked] at hlt
  split at hlt
  · exact absurd rfl hlt
  · rename_i hm
    cases s with
    | true => exact absurd rfl hlt
    | false => 
      refine ⟨rfl, Nat.pos_of_ne_zero hm, ?_⟩
      rcases not_positive_lt hlt with he | ⟨he, hle⟩
      · exact .inl he
      · exact .inr ⟨he.symm, hle⟩

theorem of_not_ofNat_lt (hn : 0 < n) (hsmall : n < 2 ^ 53)
    (hx : Binary.ofFloat x = .finite false m e) (hm : 0 < m) (hlt : ¬Float.ofNat n < x) :
    e < leadingExponent n ∨ e = leadingExponent n ∧ m ≤ leading n := by
  rw [lt_iff, unpack_ofNat hn hsmall, Binary.unpack_toModel, hx, Binary.unpacked,
    dif_neg (Nat.ne_of_gt hm)] at hlt
  exact not_positive_lt hlt

end Compare

section Whole

variable {x : Float}

theorem normalize_ne_nan (n e : Int) (s : Sign) :
    UnpackedFloat.normalize .binary64 n e s ≠ .notANumber := by
  have hround : ∀ s m e, UnpackedFloat.round .binary64 s m e ≠ .notANumber := by
    intro s m e
    simp only [UnpackedFloat.round, roundWithAccuracy]
    split <;> simp
  simp only [UnpackedFloat.normalize]
  split
  · exact hround _ _ _
  · simp
  · exact hround _ _ _

theorem toFloat_ne_nan (n : UInt64) : Binary.ofFloat n.toFloat ≠ .nan := by
  rw [ne_eq, Binary.ofFloat_eq_nan_iff]
  exact unpack_pack_ne_nan (normalize_ne_nan _ _ _)

theorem neg_ne_nan (hx : Binary.ofFloat x ≠ .nan) : Binary.ofFloat (-x) ≠ .nan := by
  rw [ne_eq, Binary.ofFloat_eq_nan_iff] at hx ⊢
  refine unpack_pack_ne_nan (u := x.toModel.unpack.neg) ?_
  cases hu : x.toModel.unpack with
  | notANumber => exact absurd hu hx
  | infinity s => simp [UnpackedFloat.neg]
  | zero s => simp [UnpackedFloat.neg]
  | finite s m e h => simp [UnpackedFloat.neg]

theorem trunc_ne_nan (hx : Binary.ofFloat x ≠ .nan) : Binary.ofFloat (trunc x) ≠ .nan := by
  unfold trunc toWhole
  split
  · split
    · exact hx
    · unfold signed
      split
      · exact neg_ne_nan (toFloat_ne_nan _)
      · exact toFloat_ne_nan _
  · exact hx

section Between

variable {n : Nat} {s : Bool} {m : Nat} {e : Int}

theorem not_infinite_between (hn : 0 < n) (hsmall : n < 2 ^ 53)
    (hx : Binary.ofFloat x = .infinite s) (hone : ¬x < 1) (hcount : ¬Float.ofNat n < x) :
    False := by
  have hunpack : x.toModel.unpack = .infinity (Binary.sign s) := by
    rw [Binary.unpack_toModel, hx]
    rfl
  cases s with
  | true =>
    rw [lt_iff, hunpack, show (1 : Float) = Float.ofNat 1 from rfl,
      unpack_ofNat (by decide) (by decide)] at hone
    exact hone rfl
  | false =>
    rw [lt_iff, hunpack, unpack_ofNat hn hsmall] at hcount
    exact hcount rfl

/-- The bounds that the two comparisons leave on sign, significand and exponent. -/
theorem quotient_between (hn : 0 < n) (hsmall : n < 2 ^ 52) (hm : Binary.Canonical m e)
    (hlow : -52 < e ∨ e = -52 ∧ Binary.hiddenBit ≤ m)
    (hhigh : e < leadingExponent n ∨ e = leadingExponent n ∧ m ≤ leading n) :
    e < 0 ∧ 1 ≤ m / twoTo (-e).toNat ∧ m / twoTo (-e).toNat ≤ n := by
  have hlog : n.log2 < 52 := (Nat.log2_lt (Nat.ne_of_gt hn)).2 hsmall
  have hself : 2 ^ n.log2 ≤ n := Nat.log2_self_le (Nat.ne_of_gt hn)
  have hlead : Binary.hiddenBit ≤ m := by
    rcases hm.le with h | h
    · exact h
    · omega
  rw [leadingExponent] at hhigh
  refine ⟨by omega, ?_, Nat.div_le_of_le_mul ?_⟩
  · refine Nat.div_pos (Nat.le_trans ?_ hlead) (twoTo_pos _)
    exact Nat.pow_le_pow_right (by decide) (show (-e).toNat ≤ 52 by omega)
  · rcases hhigh with he | ⟨he, hle⟩
    · calc m ≤ 2 * Binary.hiddenBit := Nat.le_of_lt hm.lt
        _ = 2 ^ (53 - n.log2) * 2 ^ n.log2 := by
          rw [← Nat.pow_add, Nat.sub_add_cancel (by omega)]
          rfl
        _ ≤ 2 ^ (-e).toNat * n :=
          Nat.mul_le_mul (Nat.pow_le_pow_right (by decide) (by omega)) hself
    · rw [Nat.mul_comm]
      rw [leading, show 52 - n.log2 = (-e).toNat by omega] at hle
      exact hle

/-- The whole part of a float between one and a count is between them. Among the words it is held at
the largest one. -/
theorem exists_truncInt_between (hn : 0 < n) (hle : n ≤ UInt32.size)
    (hx : Binary.ofFloat x ≠ .nan) (hone : ¬x < 1) (hcount : ¬Float.ofNat n < x) :
    ∃ i : Nat, truncInt (Binary.ofFloat x) = i ∧ 1 ≤ i ∧ i ≤ n ∧
      truncClamped 0 (UInt32.size - 1) x = min i (UInt32.size - 1) := by
  have hsmall : n < 2 ^ 52 := Nat.lt_of_le_of_lt hle (by decide)
  have hlt : n < 2 ^ 53 := Nat.lt_trans hsmall (by decide)
  cases hb : Binary.ofFloat x with
  | nan => exact absurd hb hx
  | infinite s => exact (not_infinite_between hn hlt hb hone hcount).elim
  | finite s m e =>
    obtain ⟨rfl, hm, hlow⟩ := of_not_lt_one hb hone
    have hhigh := of_not_ofNat_lt hn hlt hb hm hcount
    obtain ⟨he, hpos, hmost⟩ :=
      quotient_between hn hsmall (Binary.canonical_ofBits hb) hlow hhigh
    have htrunc : truncInt (.finite false m e) = (m / twoTo (-e).toNat : Nat) := by
      have hneg : ¬0 ≤ e := by omega
      simp [truncInt, hneg]
    have hsize : (UInt32.size : Int) = 4294967296 := rfl
    refine ⟨_, htrunc, hpos, hmost, ?_⟩
    simp only [truncClamped, hb, htrunc]
    omega

theorem truncClamped_between (hn : 0 < n) (hle : n ≤ UInt32.size)
    (hx : Binary.ofFloat x ≠ .nan) (hone : ¬x < 1) (hcount : ¬Float.ofNat n < x) :
    1 ≤ truncClamped 0 (UInt32.size - 1) x ∧ truncClamped 0 (UInt32.size - 1) x ≤ n := by
  obtain ⟨i, -, hi, hin, hclamped⟩ := exists_truncInt_between hn hle hx hone hcount
  have hsize : (UInt32.size : Int) = 4294967296 := rfl
  omega

end Between

section Count

variable {y : Float} {i n : Nat}

/-- Counts are ordered as floats in the way they are as whole numbers. -/
theorem not_lt_of_count_le (hi : 0 < i) (hn : 0 < n) (hx : x.toModel.unpack =
      .finite .positive (leading i) (leadingExponent i) (leading_pos hi))
    (hy : y.toModel.unpack = .finite .positive (leading n) (leadingExponent n) (leading_pos hn))
    (hlt : n < 2 ^ 53) (hle : i ≤ n) : ¬y < x := by
  have hlog : i.log2 ≤ n.log2 :=
    (Nat.le_log2 (Nat.ne_of_gt hn)).2 ((Nat.log2_self_le (Nat.ne_of_gt hi)).trans hle)
  have hmost := log2_le hn hlt
  rw [lt_iff, hx, hy]
  simp only [UnpackedFloat.compare, Option.some.injEq, Ordering.then_eq_lt, Int.compare_eq_lt,
    Int.compare_eq_eq, Nat.compare_eq_lt, leadingExponent]
  rintro (he | ⟨he, hm⟩)
  · omega
  · have heq : n.log2 = i.log2 := by omega
    rw [leading, leading, heq] at hm
    exact Nat.not_lt.2 (Nat.mul_le_mul_right _ hle) hm

theorem trunc_eq_toFloat (hx : x.isFinite = true) (hwhole : truncInt (Binary.ofFloat x) = i)
    (hi : 0 < i) (hsmall : i < 2 ^ 52) : trunc x = i.toUInt64.toFloat := by
  obtain ⟨s, m, e, hb⟩ := Binary.exists_finite hx
  rw [hb, truncInt] at hwhole
  have hs : s = false := by
    cases s with
    | false => rfl
    | true =>
      rw [if_pos rfl] at hwhole
      omega
  subst hs
  have hnat : (if 0 ≤ e then m * twoTo e.toNat else m / twoTo (-e).toNat) = i :=
    Int.ofNat_inj.1 hwhole
  have he : ¬0 ≤ e := by
    intro he
    rw [if_pos he] at hnat
    have hlead : Binary.hiddenBit ≤ m := by
      refine (Binary.canonical_ofBits hb).le.resolve_right ?_
      omega
    have hbig : Binary.hiddenBit ≤ i := by
      rw [← hnat]
      exact hlead.trans (Nat.le_mul_of_pos_right _ (twoTo_pos _))
    exact Nat.not_lt.2 hbig hsmall
  rw [if_neg he] at hnat
  simp only [trunc, toWhole, hb, if_neg he, Cut.inward, hnat]
  rfl

/-- A float whose whole part is a count up to `n` is cut to a whole number between one and `n`,
which is this count. -/
theorem trunc_between (hx : x.isFinite = true) (hwhole : truncInt (Binary.ofFloat x) = i)
    (hi : 0 < i) (hle : i ≤ n) (hn : n < UInt32.size) :
    ¬trunc x < 1 ∧ ¬Float.ofNat n < trunc x ∧ truncClamped 0 (UInt32.size - 1) (trunc x) = i := by
  have hsmall : i < 2 ^ 52 := Nat.lt_trans (Nat.lt_of_le_of_lt hle hn) (by decide)
  have hlt : i < 2 ^ 53 := Nat.lt_trans hsmall (by decide)
  have hlt' : n < 2 ^ 53 := Nat.lt_trans hn (by decide)
  have hunpack := unpack_toFloat hi hlt
  rw [trunc_eq_toFloat hx hwhole hi hsmall]
  refine ⟨?_, ?_, ?_⟩
  · have hone : (1 : Float).toModel.unpack = .finite .positive (leading 1) (leadingExponent 1)
        (leading_pos Nat.one_pos) := unpack_ofNat (by decide) (by decide)
    exact not_lt_of_count_le Nat.one_pos hi hone hunpack hlt hi
  · have hn := Nat.lt_of_lt_of_le hi hle
    exact not_lt_of_count_le hi hn hunpack (unpack_ofNat hn hlt') hlt' hle
  · have hfinite : Binary.ofFloat i.toUInt64.toFloat =
        .finite false (leading i) (leadingExponent i) :=
      Binary.ofFloat_eq_finite hunpack
    have hlog : i.log2 < 52 := (Nat.log2_lt (Nat.ne_of_gt hi)).2 hsmall
    have htrunc : truncInt (.finite false (leading i) (leadingExponent i)) = i := by
      have hneg : ¬0 ≤ leadingExponent i := by
        rw [leadingExponent]
        omega
      have hshift : (-leadingExponent i).toNat = 52 - i.log2 := by
        rw [leadingExponent]
        omega
      have hdiv : leading i / twoTo (52 - i.log2) = i :=
        Nat.mul_div_cancel i (twoTo_pos _)
      simp [truncInt, hneg, hshift, hdiv]
    have hsize : (UInt32.size : Int) = 4294967296 := rfl
    have hsize' : UInt32.size = 4294967296 := rfl
    simp only [truncClamped, hfinite, htrunc]
    omega

end Count

end Whole

end Spreadsheet.Number
