import Spreadsheet.Proofs.Expression.Seam

/-!
Decimal texts as expressions. A text that is read as one number is a sign, if any, and a numeral, so
that the parser finds the same number in it. The last character of a number is a digit or a point.
-/
namespace Spreadsheet.Expression

open Number (DecimalText readSign readFloat? readExponent? splitFraction)

variable {t w r : Text} {x : Float} {k : Token}

/-- The character may end a number. -/
def EndsNumber (c : Char) : Prop := c.isDigit = true ∨ c = '.'

theorem mem_getLast?_append {a b : Text} {c : Char} (h : c ∈ (a ++ b).getLast?) :
    c ∈ b.getLast? ∨ b = [] ∧ c ∈ a.getLast? := by
  rw [List.getLast?_append, Option.mem_def, Option.or_eq_some_iff, List.getLast?_eq_none_iff] at h
  exact h

theorem exists_sign (t : Text) : ∃ sign, t = sign ++ (readSign t).2 ∧
    ((sign = [] ∨ sign = ['+']) ∧ (readSign t).1 = false ∨
      sign = ['-'] ∧ (readSign t).1 = true) := by
  unfold readSign
  split
  · exact ⟨['-'], rfl, .inr ⟨rfl, rfl⟩⟩
  · exact ⟨['+'], rfl, .inl ⟨.inr rfl, rfl⟩⟩
  · exact ⟨[], rfl, .inl ⟨.inl rfl, rfl⟩⟩

theorem exists_fraction (t : Text) : ∃ fraction, t = fraction ++ (splitFraction t).2 ∧
    IsFraction fraction ∧ fraction.tail = (splitFraction t).1 := by
  unfold splitFraction
  split
  · rename_i r
    have hdigits : Digits (Text.splitWhile Char.isDigit r).1 :=
      fun c hc => List.all_eq_true.1 List.all_takeWhile c hc
    refine ⟨'.' :: (Text.splitWhile Char.isDigit r).1, ?_, .point hdigits, rfl⟩
    rw [List.cons_append, Text.splitWhile_append]
  · exact ⟨[], rfl, .none, rfl⟩

/-- An exponent that is read is nothing, or ends with a digit. -/
theorem isExponent_of_readExponent? {e : Int} (h : readExponent? t = some e) :
    IsExponent t ∧ ∀ c ∈ t.getLast?, c.isDigit = true := by
  cases t with
  | nil => exact ⟨.none, nofun⟩
  | cons c r =>
    rw [readExponent?] at h
    split at h
    · rename_i hc
      obtain ⟨sign, hr, hsign⟩ := exists_sign r
      generalize readSign r = signed at h hr hsign
      obtain ⟨negative, digits⟩ := signed
      cases hn : Number.readNat? digits with
      | none => simp [hn] at h
      | some n =>
        obtain ⟨hne, hdigits, -⟩ := Number.readNat?_eq_some_iff.1 hn
        have hsign : sign = [] ∨ sign = ['+'] ∨ sign = ['-'] :=
          hsign.elim (fun h => h.1.imp_right .inl) fun h => .inr (.inr h.1)
        rw [hr]
        refine ⟨.mark hc hsign hdigits, fun d hd => ?_⟩
        rw [← List.cons_append] at hd
        rcases mem_getLast?_append hd with hd | ⟨hnil, -⟩
        · exact hdigits d (List.mem_of_getLast? hd)
        · exact absurd hnil hne
    · cases h

/-- What is read as a number behind its sign is a numeral. -/
theorem isNumeral_of_read? {d : DecimalText} (h : DecimalText.read? t = some d) :
    IsNumeral (readSign t).2 ∧ ∀ c ∈ (readSign t).2.getLast?, EndsNumber c := by
  unfold DecimalText.read? at h
  generalize readSign t = signed at h ⊢
  obtain ⟨negative, r⟩ := signed
  dsimp only at h ⊢
  have hwhole := Text.splitWhile_append Char.isDigit r
  have hdigits : Digits (Text.splitWhile Char.isDigit r).1 :=
    fun c hc => List.all_eq_true.1 List.all_takeWhile c hc
  generalize Text.splitWhile Char.isDigit r = parts at h hwhole hdigits
  obtain ⟨whole, r'⟩ := parts
  dsimp only at h hwhole hdigits
  obtain ⟨fraction, hr', hfraction, htail⟩ := exists_fraction r'
  generalize splitFraction r' = parts at h hr' htail
  obtain ⟨ds, exponent⟩ := parts
  dsimp only at h hr' htail
  split at h
  · cases h
  · rename_i hne
    obtain ⟨e, he, -⟩ := Option.map_eq_some_iff.1 h
    obtain ⟨hexponent, hlast⟩ := isExponent_of_readExponent? he
    subst hwhole hr' htail
    have hfirst : whole = [] → 2 ≤ fraction.length := by
      intro hnil
      cases hfraction with
      | none => simp [hnil] at hne
      | @point ds hds =>
        have : ds ≠ [] := by simpa [hnil] using hne
        have := List.length_pos_iff.2 this
        rw [List.length_cons]
        omega
    have hparts : NumeralParts whole fraction exponent := ⟨hdigits, hfraction, hexponent, hfirst⟩
    refine ⟨⟨whole, fraction, exponent, rfl, hparts⟩, fun c hc => ?_⟩
    rw [← List.append_assoc] at hc
    rcases mem_getLast?_append hc with hc | ⟨-, hc⟩
    · exact .inl (hlast c hc)
    · exact hparts.mem_front (List.mem_of_getLast? hc)

theorem readSign_of_isNumeral (h : IsNumeral w) : readSign w = (false, w) := by
  obtain ⟨c, r, hw, hc, -, -⟩ := h.starts []
  rw [List.append_nil] at hw
  subst hw
  unfold readSign
  split
  · rename_i heq
    exact absurd (by rw [(List.cons.inj heq).1]; decide) hc
  · rename_i heq
    exact absurd (by rw [(List.cons.inj heq).1]; decide) hc
  · rfl

theorem exists_numeral_of_readFloat? (h : readFloat? t = some x) : ∃ sign w y, t = sign ++ w ∧
    IsNumeral w ∧ readFloat? w = some y ∧ (∀ c ∈ w.getLast?, EndsNumber c) ∧
      ((sign = [] ∨ sign = ['+']) ∧ x = y ∨ sign = ['-'] ∧ x = -y) := by
  obtain ⟨d, hd, rfl⟩ := Option.map_eq_some_iff.1 h
  obtain ⟨hnumeral, hlast⟩ := isNumeral_of_read? hd
  obtain ⟨sign, ht, hsign⟩ := exists_sign t
  have hplain := readSign_of_isNumeral hnumeral
  have hread : DecimalText.read? (readSign t).2 = some { d with negative := false } ∧
      d.negative = (readSign t).1 := by
    unfold DecimalText.read? at hd ⊢
    rw [hplain]
    generalize readSign t = signed at hd
    obtain ⟨negative, r⟩ := signed
    dsimp only at hd ⊢
    split at hd
    · cases hd
    · rename_i hne
      obtain ⟨e, he, rfl⟩ := Option.map_eq_some_iff.1 hd
      rw [if_neg hne, he]
      exact ⟨rfl, rfl⟩
  have hfloat : d.toFloat =
      Number.signed (readSign t).1 (Number.nearestFloat d.coefficient d.exponent) := by
    rw [← hread.2]
    rfl
  refine ⟨sign, (readSign t).2, Number.nearestFloat d.coefficient d.exponent, ht, hnumeral, ?_,
    hlast, ?_⟩
  · rw [readFloat?, hread.1]
    rfl
  · rw [hfloat]
    rcases hsign with ⟨hsign, hfalse⟩ | ⟨hsign, htrue⟩
    · rw [hfalse]
      exact .inl ⟨hsign, rfl⟩
    · rw [htrue]
      exact .inr ⟨hsign, rfl⟩

theorem IsNumeral.before_mark {x z : Text} {c : Char} (h : IsNumeral (x ++ c :: z))
    (hc : IsMark c) : ∃ d ∈ x.getLast?, EndsNumber d := by
  obtain ⟨hdigit, hpoint, hsign⟩ := hc.ne
  rcases h.middle with h | h | ⟨-, y, d, rfl, hd⟩ | ⟨h, -⟩
  · rw [hdigit] at h
    cases h
  · exact absurd h hpoint
  · exact ⟨d, List.getLast?_concat, hd⟩
  · exact absurd h hsign

/-- A number is an expression with itself as the value. -/
theorem exists_parse_of_readFloat? (h : readFloat? t = some x) :
    ∃ e, parse t = .ok e ∧ e.value = .number x := by
  obtain ⟨sign, w, y, rfl, hw, hy, -, hsign⟩ := exists_numeral_of_readFloat? h
  have hnumber : Spells w [.number y] := by
    have hlongest : Longest IsNumeral w [] := ⟨hw, fun _ hc => nomatch hc⟩
    have hspells := Spells.token (.number hlongest hy) .nil
    rwa [List.append_nil] at hspells
  have hunsigned {n : Nat} : Derives n .signed [.number y] (.number y) := .unsigned (.number y)
  have hsigned {c : Char} {k : Token} {op : UnaryOperator} (hc : ([c], k) ∈ symbols)
      (hmark : c ∉ ['<', '>', '=']) (hk : Sign k op) :
      parse ([c] ++ w) = .ok (.unary op (.number y)) :=
    parse_of_derives (.token (lexeme_mark hc hmark w) hnumber)
      (.single (.single (.single (.base (.sign hk hunsigned)))))
  rcases hsign with ⟨rfl | rfl, rfl⟩ | ⟨rfl, rfl⟩
  · exact ⟨_, parse_of_derives hnumber (.single (.single (.single (.base hunsigned)))), rfl⟩
  · exact ⟨_, hsigned (k := .plus) (by decide) (by decide) .plus, rfl⟩
  · exact ⟨_, hsigned (k := .minus) (by decide) (by decide) .minus, rfl⟩

theorem Lexeme.endsNumber (h : Lexeme w r (.number x)) : ∀ c ∈ w.getLast?, EndsNumber c := by
  cases h with
  | symbol _ hk => simp [symbols] at hk
  | number _ hx =>
    obtain ⟨sign, w, y, rfl, hw, -, hlast, -⟩ := exists_numeral_of_readFloat? hx
    intro c hc
    rcases mem_getLast?_append hc with hc | ⟨rfl, -⟩
    · exact hlast c hc
    · obtain ⟨d, r, hnil, -⟩ := hw.starts []
      cases hnil

/-- A text that ends with a digit or a point ends with an operand. -/
theorem Spells.exists_operand {ts : List Token} {d : Char} (h : Spells t ts)
    (hd : d ∈ t.getLast?) (hends : EndsNumber d) : ∃ k ∈ ts.getLast?, isOperand k = true := by
  induction h with
  | nil => cases hd
  | @blank c t ts hc h ih =>
    rcases mem_getLast?_append (a := [c]) hd with hd | ⟨-, hd⟩
    · exact ih hd
    · obtain rfl : c = d := Option.some.inj hd
      rcases hends with hdigit | rfl
      · rw [isBlank_of_isWord (isWord_of_isDigit hdigit)] at hc
        cases hc
      · cases hc
  | @token w t k ts hw h ih =>
    rcases mem_getLast?_append hd with hd | ⟨rfl, hd⟩
    · obtain ⟨j, hj, hoperand⟩ := ih hd
      refine ⟨j, ?_, hoperand⟩
      rw [List.getLast?_cons, Option.mem_def.1 hj]
      rfl
    · obtain rfl := h.eq_nil
      refine ⟨k, rfl, ?_⟩
      cases hw with
      | number _ _ => rfl
      | name _ => rfl
      | symbol _ hk =>
        have hall : ∀ p ∈ symbols, ∀ c ∈ p.1, ¬(c.isDigit = true ∨ c = '.') := by simp [symbols]
        rw [List.append_nil] at hd
        exact absurd hends (hall _ hk d (List.mem_of_getLast? hd))

end Spreadsheet.Expression
