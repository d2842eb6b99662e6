import Spreadsheet.Style

/-!
The texts that are read as a colour: three pairs behind any number of hash signs. A pair is two
hexadecimal digits of either case, or a plus sign and one digit. Main statement: nothing else is read,
and a colour is read off its own text; so a text without a plus sign is a colour exactly if six digits
are left of it.
-/
namespace Spreadsheet.Colour

variable {t : Text} {c d : Char} {m n : Nat} {b : UInt8} {colour : Colour}

section Digits

/-- The character is the digit for the number, in small letters or in capitals. -/
def IsHexDigit (c : Char) (n : Nat) : Prop :=
  "0123456789abcdef".toList[n]? = some c ∨ "0123456789ABCDEF".toList[n]? = some c

instance (c : Char) (n : Nat) : Decidable (IsHexDigit c n) :=
  inferInstanceAs (Decidable (_ ∨ _))

theorem IsHexDigit.lt (h : IsHexDigit c n) : n < 16 := by
  rcases h with h | h <;> exact (List.getElem?_eq_some_iff.1 h).1

theorem toNat_lt_of_hexDigit? (h : hexDigit? c = some n) : c.toNat < 128 := by
  have hf : 'f'.toNat < 128 := by decide
  have hF : 'F'.toNat < 128 := by decide
  unfold hexDigit? at h
  split at h
  · rename_i hc
    exact Nat.lt_of_le_of_lt (Char.isDigit_iff_toNat.1 hc).2 (by decide)
  · split at h
    · rename_i hc
      exact Nat.lt_of_le_of_lt (UInt32.le_iff_toNat_le.1 hc.2) hf
    · split at h
      · rename_i hc
        exact Nat.lt_of_le_of_lt (UInt32.le_iff_toNat_le.1 hc.2) hF
      · cases h

theorem hexDigit?_eq_some_iff : hexDigit? c = some n ↔ IsHexDigit c n := by
  constructor
  · intro h
    have hdigit : ∀ n ∈ hexDigit? c, IsHexDigit c n :=
      Text.of_toNat_lt (P := fun c => ∀ n ∈ hexDigit? c, IsHexDigit c n) (by decide +kernel)
        (toNat_lt_of_hexDigit? h)
    exact hdigit n h
  · intro h
    have hsmall : ∀ n < 16, "0123456789abcdef".toList[n]?.bind hexDigit? = some n := by decide
    have hcapital : ∀ n < 16, "0123456789ABCDEF".toList[n]?.bind hexDigit? = some n := by decide
    rcases h with hc | hc
    · rw [← hsmall n (IsHexDigit.lt (.inl hc)), hc, Option.bind_some]
    · rw [← hcapital n (IsHexDigit.lt (.inr hc)), hc, Option.bind_some]

theorem not_isHexDigit_mark (h : c = '#' ∨ c = '+') : ¬IsHexDigit c n := by
  rw [← hexDigit?_eq_some_iff]
  rcases h with rfl | rfl <;> exact nofun

end Digits

section Pairs

/-- How a number below 256 may be written in two characters. -/
inductive IsPair : Text → UInt8 → Prop
  | digits {c d : Char} {m n : Nat} {b : UInt8} (hc : IsHexDigit c m) (hd : IsHexDigit d n)
      (hb : b.toNat = 16 * m + n) : IsPair [c, d] b
  | plus {d : Char} {n : Nat} {b : UInt8} (hd : IsHexDigit d n) (hb : b.toNat = n) :
      IsPair ['+', d] b

theorem toUInt8_eq_iff (h : n < 256) : n.toUInt8 = b ↔ b.toNat = n := by
  rw [← UInt8.toNat_inj, UInt8.toNat_ofNat_of_lt' h, eq_comm]

theorem readPair?_eq_some_iff : readPair? c d = some b ↔ IsPair [c, d] b := by
  unfold readPair?
  split
  · rename_i hc
    subst c
    rw [Option.map_eq_some_iff]
    constructor
    · rintro ⟨n, hn, hb⟩
      have hd := hexDigit?_eq_some_iff.1 hn
      have hlt := hd.lt
      exact .plus hd ((toUInt8_eq_iff (by omega)).1 hb)
    · intro h
      cases h with
      | digits hc _ _ => exact absurd hc (not_isHexDigit_mark (.inr rfl))
      | plus hd hb =>
        have hlt := hd.lt
        exact ⟨_, hexDigit?_eq_some_iff.2 hd, (toUInt8_eq_iff (by omega)).2 hb⟩
  · rename_i hc
    simp only [Option.bind_eq_bind, Option.bind_eq_some_iff, Option.pure_def, Option.some.injEq]
    constructor
    · rintro ⟨m, hm, n, hn, hb⟩
      have hc := hexDigit?_eq_some_iff.1 hm
      have hd := hexDigit?_eq_some_iff.1 hn
      have hltc := hc.lt
      have hltd := hd.lt
      exact .digits hc hd ((toUInt8_eq_iff (by omega)).1 hb)
    · intro h
      cases h with
      | digits hc hd hb =>
        have hltc := hc.lt
        have hltd := hd.lt
        exact ⟨_, hexDigit?_eq_some_iff.2 hc, _, hexDigit?_eq_some_iff.2 hd,
          (toUInt8_eq_iff (by omega)).2 hb⟩
      | plus hd hb => exact absurd rfl hc

theorem IsPair.exists_eq {p : Text} (h : IsPair p b) : ∃ c d, p = [c, d] ∧ c ≠ '#' := by
  cases h with
  | @digits c d m n _ hc _ _ =>
    refine ⟨c, d, rfl, ?_⟩
    exact fun hhash => not_isHexDigit_mark (.inl hhash) hc
  | @plus d n _ _ _ => exact ⟨'+', d, rfl, by decide⟩

theorem exists_isPair_iff {p : Text} (h : '+' ∉ p) :
    (∃ b, IsPair p b) ↔ p.length = 2 ∧ ∀ c ∈ p, ∃ n, IsHexDigit c n := by
  constructor
  · rintro ⟨b, hb⟩
    cases hb with
    | digits hc hd _ => exact ⟨rfl, by simpa using ⟨⟨_, hc⟩, _, hd⟩⟩
    | plus _ _ => simp at h
  · rintro ⟨hlength, hdigits⟩
    match p, hlength with
    | [c, d], _ =>
    obtain ⟨m, hc⟩ := hdigits c (by simp)
    obtain ⟨n, hd⟩ := hdigits d (by simp)
    have hltc := hc.lt
    have hltd := hd.lt
    exact ⟨(16 * m + n).toUInt8, .digits hc hd ((toUInt8_eq_iff (by omega)).1 rfl)⟩

theorem isPair_pairText (b : UInt8) : IsPair (pairText b) b := by
  have hall : ∀ n < 16, IsHexDigit (hexChar n) n := by decide
  have hb := b.toNat_lt
  exact .digits (hall _ (by omega)) (hall _ (Nat.mod_lt _ (by decide)))
    (Nat.div_add_mod _ _).symm

end Pairs

section Texts

/-- The text without the hash signs at its beginning. -/
def bare (t : Text) : Text := t.dropWhile (· == '#')

/-- The text is three pairs behind hash signs, one for each part of the colour. -/
def Spells (t : Text) (colour : Colour) : Prop :=
  ∃ r g b, bare t = r ++ g ++ b ∧
    IsPair r colour.red ∧ IsPair g colour.green ∧ IsPair b colour.blue

theorem read?_eq_some_iff : read? t = some colour ↔ Spells t colour := by
  unfold read? Spells bare
  constructor
  · intro h
    split at h
    · rename_i r₁ r₀ g₁ g₀ b₁ b₀ hsix
      simp only [Option.bind_eq_bind, Option.bind_eq_some_iff, Option.pure_def,
        Option.some.injEq] at h
      obtain ⟨r, hr, g, hg, b, hb, rfl⟩ := h
      exact ⟨[r₁, r₀], [g₁, g₀], [b₁, b₀], hsix, readPair?_eq_some_iff.1 hr,
        readPair?_eq_some_iff.1 hg, readPair?_eq_some_iff.1 hb⟩
    · cases h
  · rintro ⟨r, g, b, hsix, hr, hg, hb⟩
    obtain ⟨r₁, r₀, rfl, -⟩ := hr.exists_eq
    obtain ⟨g₁, g₀, rfl, -⟩ := hg.exists_eq
    obtain ⟨b₁, b₀, rfl, -⟩ := hb.exists_eq
    rw [hsix]
    simp [readPair?_eq_some_iff.2 hr, readPair?_eq_some_iff.2 hg, readPair?_eq_some_iff.2 hb]

theorem spells_text (colour : Colour) : Spells colour.text colour := by
  have hred := isPair_pairText colour.red
  obtain ⟨c, d, hpair, hhash⟩ := hred.exists_eq
  refine ⟨_, _, _, ?_, hred, isPair_pairText _, isPair_pairText _⟩
  simp [bare, text, hexText, hpair, hhash]

/-- Without a plus sign, six digits behind hash signs are a colour, and nothing else is. -/
theorem exists_spells_iff (h : '+' ∉ bare t) : (∃ colour, Spells t colour) ↔
    (bare t).length = 6 ∧ ∀ c ∈ bare t, ∃ n, IsHexDigit c n := by
  unfold Spells
  generalize bare t = w at h
  constructor
  · rintro ⟨colour, r, g, b, rfl, hr, hg, hb⟩
    simp only [List.mem_append, not_or] at h
    obtain ⟨hr₂, hr⟩ := (exists_isPair_iff h.1.1).1 ⟨_, hr⟩
    obtain ⟨hg₂, hg⟩ := (exists_isPair_iff h.1.2).1 ⟨_, hg⟩
    obtain ⟨hb₂, hb⟩ := (exists_isPair_iff h.2).1 ⟨_, hb⟩
    refine ⟨by simp [hr₂, hg₂, hb₂], ?_⟩
    simp only [List.forall_mem_append]
    exact ⟨⟨hr, hg⟩, hb⟩
  · rintro ⟨hlength, hdigits⟩
    match w, hlength with
    | [r₁, r₀, g₁, g₀, b₁, b₀], _ =>
    have hcut : [r₁, r₀, g₁, g₀, b₁, b₀] = [r₁, r₀] ++ [g₁, g₀] ++ [b₁, b₀] := rfl
    rw [hcut] at h hdigits
    simp only [List.mem_append, not_or] at h
    simp only [List.forall_mem_append] at hdigits
    obtain ⟨r, hr⟩ := (exists_isPair_iff h.1.1).2 ⟨rfl, hdigits.1.1⟩
    obtain ⟨g, hg⟩ := (exists_isPair_iff h.1.2).2 ⟨rfl, hdigits.1.2⟩
    obtain ⟨b, hb⟩ := (exists_isPair_iff h.2).2 ⟨rfl, hdigits.2⟩
    exact ⟨⟨r, g, b⟩, _, _, _, hcut, hr, hg, hb⟩

end Texts

/-- A text is read as a colour exactly if three pairs are left of it without the hash signs at its
beginning, each two digits of either case or a plus sign and a digit, and the parts of the colour are
the values of the pairs. The text of a colour is read as that colour. Whether a text is
read comes to whether six digits are left of it, unless a plus sign is left and it is read all the
same. -/
theorem read?_eq_some_iff_pairs (t : Text) (colour : Colour) :
    (read? t = some colour ↔ ∃ r g b, bare t = r ++ g ++ b ∧
      IsPair r colour.red ∧ IsPair g colour.green ∧ IsPair b colour.blue) ∧
    read? colour.text = some colour ∧
    (((∃ other, read? t = some other) ↔
        (bare t).length = 6 ∧ ∀ c ∈ bare t, ∃ n, IsHexDigit c n) ↔
      ('+' ∈ bare t → read? t = none)) := by
  refine ⟨read?_eq_some_iff, read?_eq_some_iff.2 (spells_text colour), ?_⟩
  by_cases hplus : '+' ∈ bare t
  · have hdigits : ¬((bare t).length = 6 ∧ ∀ c ∈ bare t, ∃ n, IsHexDigit c n) := by
      rintro ⟨-, hdigits⟩
      obtain ⟨n, hn⟩ := hdigits _ hplus
      exact not_isHexDigit_mark (.inr rfl) hn
    rw [iff_false_right hdigits, Option.eq_none_iff_forall_ne_some, forall_prop_of_true hplus,
      not_exists]
  · simp only [read?_eq_some_iff]
    exact iff_of_true (exists_spells_iff hplus) fun h => absurd h hplus

/-- Small letters and capitals are read alike. Three plus signs stand for three digits. -/
theorem read?_eq_some_iff_pairs_mixed :
    (∃ colour, read? "##1A2b3C".toList = some colour) ∧
      ¬((∃ colour, read? "+F+F+F".toList = some colour) ↔
        (bare "+F+F+F".toList).length = 6 ∧ ∀ c ∈ bare "+F+F+F".toList, ∃ n, IsHexDigit c n) := by
  have hdigits := (read?_eq_some_iff_pairs "##1A2b3C".toList ⟨0, 0, 0⟩).2.2
  have hplus := (read?_eq_some_iff_pairs "+F+F+F".toList ⟨0, 0, 0⟩).2.2
  constructor
  · refine (hdigits.2 fun h => absurd h (by decide)).2 ⟨by decide, fun c hc => ?_⟩
    have hall : (bare "##1A2b3C".toList).all (fun c => (hexDigit? c).isSome) = true := by decide
    obtain ⟨n, hn⟩ := Option.isSome_iff_exists.1 (List.all_eq_true.1 hall c hc)
    exact ⟨n, hexDigit?_eq_some_iff.1 hn⟩
  · intro h
    have hnone := hplus.1 h (by decide)
    have hsome : read? "+F+F+F".toList = some ⟨15, 15, 15⟩ := by decide
    rw [hsome] at hnone
    cases hnone

end Spreadsheet.Colour
