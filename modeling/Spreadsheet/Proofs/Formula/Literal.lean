import Spreadsheet.Formula.Evaluate
import Spreadsheet.Proofs.Expression.Joint
import Spreadsheet.Proofs.Formula.Reads
import Spreadsheet.Proofs.Number.RoundTrip

/-!
What a cell's value leaves in an expression. A negative number stands in parentheses, a negative zero
behind its sign, and either is read as a sign before the digits. Such a text has its own tokens
wherever a reference may stand, and they form a signed phrase of the value.
-/
namespace Spreadsheet.Formula

open Expression (Breaks Derives Digits IsFraction IsPlainNumeral Lexeme Spells StandsFor)

variable {x y : Float} {v : Value} {w r : Text} {negative : Bool}
  {ts rs : List Expression.Token}

/-- The operand that a value is in an expression. What is no number counts as zero. -/
def operand : Value → Expression.Token
  | .boolean b => .identifier (booleanLiteral b)
  | v => .number (v.number?.getD 0)

/-- The text that a value is in an expression. -/
def literal : Value → Text
  | .boolean b => booleanLiteral b
  | v => numberLiteral (v.number?.getD 0)

theorem cellLiteral_eq (h : v.isError = false) : cellLiteral v = .ok (literal v) := by
  cases v with
  | error e => cases h
  | _ => rfl

section Numeral

/-- A sign where there is one. -/
def signText (negative : Bool) : Text := if negative then ['-'] else []

theorem isPlainNumeral_positional (d : Number.Digits) : IsPlainNumeral (d.positional false) := by
  have hfull := d.inFull_positional
  generalize d.positional false = t at hfull
  cases hfull with
  | whole hne hws _ _ => exact ⟨t, [], (List.append_nil t).symm, hws, hne, .none⟩
  | point hne hws hfs _ _ => exact ⟨_, _, rfl, hws, hne, .point hfs⟩

/-- A finite number is written as a plain numeral, behind its sign. -/
theorem exists_write (hx : x.isFinite = true) :
    ∃ negative w, Number.plain.write x = signText negative ++ w ∧ IsPlainNumeral w := by
  obtain ⟨s, m, e, hfinite⟩ := Number.Binary.exists_finite hx
  refine ⟨s, _, ?_, isPlainNumeral_positional (Number.shortestDigits m e)⟩
  have hmagnitude : Number.plain.magnitude (Number.shortestDigits m e) =
      (Number.shortestDigits m e).positional false := if_neg (by simp [Number.plain])
  rw [Number.Form.write, hfinite, ← hmagnitude]
  rfl

theorem readSign_of_isPlainNumeral (hw : IsPlainNumeral w) : Number.readSign w = (false, w) := by
  obtain ⟨whole, fraction, rfl, hwhole, hne, -⟩ := hw
  exact Number.readSign_of_digit hne hwhole fraction

theorem readFloat?_signText (negative : Bool) (hw : IsPlainNumeral w) :
    Number.readFloat? (signText negative ++ w) =
      (Number.readFloat? w).map (Number.signed negative) := by
  have hplain := readSign_of_isPlainNumeral hw
  have hsigned : Number.readSign (signText negative ++ w) = (negative, w) := by
    cases negative with
    | false => exact hplain
    | true => rfl
  simp only [Number.readFloat?, Number.DecimalText.read?, hplain, hsigned]
  split
  · rfl
  · simp only [Option.map_map]
    rfl

/-- The text of a number is a signed numeral that denotes it, possibly between parentheses. -/
theorem exists_numberLiteral (hx : x.isFinite = true) :
    ∃ negative w y, IsPlainNumeral w ∧ Number.readFloat? w = some y ∧
      Number.signed negative y = x ∧
      (numberLiteral x = signText negative ++ w ∨
        numberLiteral x = '(' :: (signText negative ++ w ++ [')'])) := by
  obtain ⟨negative, w, hwrite, hw⟩ := exists_write hx
  have hread := Number.readFloat?_write hx
  rw [hwrite, readFloat?_signText negative hw] at hread
  obtain ⟨y, hy, hyx⟩ := Option.map_eq_some_iff.1 hread
  refine ⟨negative, w, y, hw, hy, hyx, ?_⟩
  unfold numberLiteral
  rw [hwrite]
  split
  · exact .inr rfl
  · exact .inl rfl

end Numeral

section Phrase

/-- The tokens of a signed number. -/
def signedTokens (negative : Bool) (y : Float) : List Expression.Token :=
  (if negative then [.minus] else []) ++ [.number y]

theorem spells_signed (negative : Bool) (hw : IsPlainNumeral w) (hy : Number.readFloat? w = some y)
    (hr : ∀ c ∈ r.head?, Breaks c) (h : Spells r rs) :
    Spells (signText negative ++ w ++ r) (signedTokens negative y ++ rs) := by
  have hnumber : Spells (w ++ r) (.number y :: rs) := .token (.number (hw.longest hr) hy) h
  cases negative with
  | false => exact hnumber
  | true =>
    have hminus : Lexeme ['-'] (w ++ r) .minus := Expression.lexeme_mark (by decide) (by decide) _
    simpa [signText, signedTokens] using Spells.token hminus hnumber

theorem spells_enclosed (negative : Bool) (hw : IsPlainNumeral w)
    (hy : Number.readFloat? w = some y) (h : Spells r rs) :
    Spells ('(' :: (signText negative ++ w ++ ')' :: r))
      (.leftParen :: (signedTokens negative y ++ .rightParen :: rs)) := by
  have hclose : Spells (')' :: r) (.rightParen :: rs) :=
    .token (Expression.lexeme_mark (c := ')') (by decide) (by decide) r) h
  have hbreaks : ∀ c ∈ (')' :: r).head?, Breaks c := by
    intro c hc
    obtain rfl := Option.some.inj hc
    exact ⟨by decide, by decide⟩
  have hopen : Lexeme ['('] (signText negative ++ w ++ ')' :: r) .leftParen :=
    Expression.lexeme_mark (by decide) (by decide) _
  exact .token hopen (spells_signed negative hw hy hbreaks hclose)

theorem derives_signed (negative : Bool) (y : Float) :
    ∃ e, Derives 1 .signed (signedTokens negative y) e ∧
      e.value = .number (Number.signed negative y) := by
  cases negative with
  | false => exact ⟨.number y, .unsigned (.number y), rfl⟩
  | true => exact ⟨.unary .negate (.number y), .sign .minus (.unsigned (.number y)), rfl⟩

/-- The text has the tokens wherever no word goes on behind it, and they stand for the operand. -/
structure StandsIn (lit : Text) (k : Expression.Token) (ts : List Expression.Token) : Prop where
  exists_cons : ∃ c t, lit = c :: t ∧ c ≠ '=' ∧ c ≠ '>'
  spells {r : Text} {rs : List Expression.Token} (hr : ∀ c ∈ r.head?, Breaks c)
    (h : Spells r rs) : Spells (lit ++ r) (ts ++ rs)
  standsFor : StandsFor 2 (fun a b => a.value = b.value) k ts

theorem exists_cons_signed (hw : IsPlainNumeral w) (negative : Bool) :
    ∃ c t, signText negative ++ w = c :: t ∧ c ≠ '=' ∧ c ≠ '>' := by
  cases negative with
  | true => exact ⟨'-', w, rfl, by decide, by decide⟩
  | false =>
    obtain ⟨whole, fraction, rfl, hwhole, hne, -⟩ := hw
    obtain ⟨c, whole, rfl⟩ := List.exists_cons_of_ne_nil hne
    have hc := hwhole c List.mem_cons_self
    refine ⟨c, whole ++ fraction, rfl, ?_, ?_⟩ <;>
    · rintro rfl
      exact absurd hc (by decide)

theorem standsIn_numberLiteral (hx : x.isFinite = true) :
    ∃ ts, StandsIn (numberLiteral x) (.number x) ts := by
  obtain ⟨negative, w, y, hw, hy, rfl, hliteral | hliteral⟩ := exists_numberLiteral hx
  all_goals
    obtain ⟨e, hd, he⟩ := derives_signed negative y
    rw [hliteral]
  · refine ⟨signedTokens negative y, exists_cons_signed hw negative, ?_,
      .inr ⟨_, e, rfl, hd.mono (by decide), he.symm⟩⟩
    intro r rs hr h
    exact spells_signed negative hw hy hr h
  · refine ⟨.leftParen :: (signedTokens negative y ++ [.rightParen]),
      ⟨'(', _, rfl, by decide, by decide⟩, ?_,
      .inr ⟨_, e, rfl, .unsigned (.parens (.single (.single (.single (.base hd))))), he.symm⟩⟩
    intro r rs _ h
    simpa using spells_enclosed negative hw hy h

theorem standsIn_booleanLiteral (b : Bool) :
    StandsIn (booleanLiteral b) (.identifier (booleanLiteral b))
      [.identifier (booleanLiteral b)] := by
  have hname : Expression.IsName (booleanLiteral b) := by
    cases b with
    | false => exact ⟨by decide, List.all_eq_true.1 (by decide)⟩
    | true => exact ⟨by decide, List.all_eq_true.1 (by decide)⟩
  refine ⟨?_, fun hr h => ?_, .inl rfl⟩
  · cases b with
    | false => exact ⟨'F', _, rfl, by decide, by decide⟩
    | true => exact ⟨'T', _, rfl, by decide, by decide⟩
  · exact .token (.name (Expression.longest_name hname hr)) h

theorem isFinite_getD_number? (v : Value) : (v.number?.getD 0).isFinite = true := by
  cases h : v.number? with
  | none => decide
  | some x => exact LibraryFunction.isFinite_of_number? h

theorem standsIn_literal (v : Value) : ∃ ts, StandsIn (literal v) (operand v) ts := by
  cases v with
  | boolean b => exact ⟨_, standsIn_booleanLiteral b⟩
  | _ => exact standsIn_numberLiteral (isFinite_getD_number? _)

end Phrase

end Spreadsheet.Formula
