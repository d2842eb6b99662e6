import Spreadsheet.Number.Form
import Spreadsheet.Proofs.Number.Digits
import Spreadsheet.Proofs.Number.Reading
import Spreadsheet.Proofs.Number.Shortest

/-!
A finite number read back from its own text. The digits written are those of a decimal that rounds
to the number, with zeros behind them or a point among them, and the sign is written on its own, so
that negative zero comes back too.
-/
namespace Spreadsheet.Number

variable {ws fs ds t : Text} {x : Float} {m c : ℕ} {e k : ℤ}

section Plain

theorem readSign_of_digit (hne : ws ≠ []) (hws : ∀ c ∈ ws, c.isDigit = true) (r : Text) :
    readSign (ws ++ r) = (false, ws ++ r) := by
  obtain ⟨c, ws, rfl⟩ := List.exists_cons_of_ne_nil hne
  have hc := hws c List.mem_cons_self
  rw [List.cons_append]
  unfold readSign
  split
  · rename_i heq
    obtain ⟨rfl, -⟩ := List.cons.inj heq
    cases hc
  · rename_i heq
    obtain ⟨rfl, -⟩ := List.cons.inj heq
    cases hc
  · rfl

theorem read?_whole (hne : ws ≠ []) (hws : ∀ c ∈ ws, c.isDigit = true) :
    DecimalText.read? ws = some ⟨false, digitsValue ws, 0⟩ := by
  have hsign := readSign_of_digit hne hws []
  have hsplit : Text.splitWhile Char.isDigit (ws ++ []) = (ws, []) :=
    Text.splitWhile_append_of_all hws nofun
  rw [List.append_nil] at hsign hsplit
  simp [DecimalText.read?, hsign, hsplit, splitFraction, readExponent?, hne]

theorem read?_fraction (hne : ws ≠ []) (hws : ∀ c ∈ ws, c.isDigit = true)
    (hfs : ∀ c ∈ fs, c.isDigit = true) : DecimalText.read? (ws ++ '.' :: fs) =
      some ⟨false, digitsValue (ws ++ fs), -fs.length⟩ := by
  have hsign := readSign_of_digit hne hws ('.' :: fs)
  have hsplit : Text.splitWhile Char.isDigit (ws ++ '.' :: fs) = (ws, '.' :: fs) :=
    Text.splitWhile_append_of_all hws fun c hc => by
      obtain rfl := Option.some.inj hc
      decide
  have hfraction : Text.splitWhile Char.isDigit (fs ++ []) = (fs, []) :=
    Text.splitWhile_append_of_all hfs nofun
  rw [List.append_nil] at hfraction
  simp [DecimalText.read?, hsign, hsplit, splitFraction, hfraction, readExponent?, hne]

/-- Written out in full, digits are read as a decimal of the same value. -/
theorem exists_read?_positional (d : Digits) :
    ∃ c k, DecimalText.read? (d.positional false) = some ⟨false, c, k⟩ ∧
      readSign (d.positional false) = (false, d.positional false) ∧
        (c : ℚ) * 10 ^ k = d.coefficient * 10 ^ d.exponent := by
  have hfull := d.inFull_positional
  generalize d.positional false = t at hfull
  cases hfull with
  | whole hne hws hexp hvalue =>
    have hsign := readSign_of_digit hne hws []
    rw [List.append_nil] at hsign
    refine ⟨_, _, read?_whole hne hws, hsign, ?_⟩
    have hpow : (10 : ℚ) ^ d.exponent = 10 ^ d.exponent.toNat := by
      rw [← zpow_natCast, Int.toNat_of_nonneg hexp]
    rw [hvalue, hpow]
    push_cast
    ring
  | point hne hws hfs hexp hvalue =>
    refine ⟨_, _, read?_fraction hne hws hfs, readSign_of_digit hne hws _, ?_⟩
    rw [hvalue, hexp]

end Plain

section Signed

theorem read?_sign (negative : Bool) (hsign : readSign t = (false, t))
    (h : DecimalText.read? t = some ⟨false, c, k⟩) :
    DecimalText.read? ((if negative then ['-'] else []) ++ t) = some ⟨negative, c, k⟩ := by
  cases negative with
  | false => exact h
  | true =>
    have hminus : readSign ('-' :: t) = (true, t) := rfl
    simp only [DecimalText.read?, hsign] at h
    change DecimalText.read? ('-' :: t) = _
    simp only [DecimalText.read?, hminus]
    split at h
    · cases h
    · rename_i hdigits
      obtain ⟨exponent, hexponent, heq⟩ := Option.map_eq_some_iff.1 h
      rw [if_neg hdigits, hexponent]
      injection heq with _ hc hk
      simp [hc, hk]

theorem ofFloat_signed (hc : Binary.Canonical m e) (he : -1074 ≤ e) (he' : e ≤ 971) (hm : 0 < m)
    (negative : Bool) :
    Binary.ofFloat (signed negative (positive m e hm)) = .finite negative m e := by
  have hpositive : (positive m e hm).toModel.unpack = .finite .positive m e hm :=
    unpack_pack_of_canonical hc he he' hm
  cases negative with
  | false => exact Binary.ofFloat_eq_finite (s := false) hpositive
  | true =>
    have hnegative : (-positive m e hm).toModel.unpack = .finite .negative m e hm := by
      change (Float.Model.pack (positive m e hm).toModel.unpack.neg).unpack = _
      rw [hpositive]
      exact unpack_pack_of_canonical hc he he' hm
    exact Binary.ofFloat_eq_finite (s := true) hnegative

/-- The digits of a significand and an exponent are read as their float. -/
theorem ofFloat_readFloat? (hc : Binary.Canonical m e) (he : -1074 ≤ e) (he' : e ≤ 971)
    (negative : Bool) : ∃ y, Binary.ofFloat y = .finite negative m e ∧
      readFloat? ((if negative then ['-'] else []) ++ (shortestDigits m e).positional false) =
        some y := by
  rcases Nat.eq_zero_or_pos m with rfl | hm
  · obtain rfl : e = -1074 := hc.le.resolve_left (by decide)
    cases negative with
    | false => exact ⟨0, by decide +kernel, by decide +kernel⟩
    | true => exact ⟨-0, by decide +kernel, by decide +kernel⟩
  · obtain ⟨c, k, hdigits, hpos, hnearest⟩ := nearest_shortestDigits hc he he' hm
    obtain ⟨c', k', hread, hsign, hvalue⟩ := exists_read?_positional (shortestDigits m e)
    rw [hdigits] at hvalue
    rw [← hvalue] at hnearest
    have hpos' : 0 < c' := by
      rcases Nat.eq_zero_or_pos c' with rfl | hpos'
      · have hten : (0 : ℚ) < c * 10 ^ k := mul_pos (Nat.cast_pos.2 hpos) (by positivity)
        rw [← hvalue, Nat.cast_zero, zero_mul] at hten
        exact absurd hten (lt_irrefl _)
      · exact hpos'
    have hfloat := nearestFloat_of_nearest hnearest hc he he' hm hpos'
    refine ⟨_, ofFloat_signed hc he he' hm negative, ?_⟩
    rw [readFloat?, read?_sign negative hsign hread, Option.map_some, DecimalText.toFloat, hfloat]

/-- A finite number is what its text denotes. -/
theorem readFloat?_write (hx : x.isFinite = true) : readFloat? (plain.write x) = some x := by
  obtain ⟨s, m, e, hfinite⟩ := Binary.exists_finite hx
  obtain ⟨he, he'⟩ := Binary.exponent_ofBits hfinite
  obtain ⟨y, hy, hread⟩ := ofFloat_readFloat? (Binary.canonical_ofBits hfinite) he he' s
  have hmagnitude : plain.magnitude (shortestDigits m e) =
      (shortestDigits m e).positional false := if_neg (by simp [plain])
  rw [Form.write, hfinite]
  simp only [hmagnitude]
  rw [hread, Binary.ofFloat_inj hy hfinite]

end Signed

end Spreadsheet.Number
