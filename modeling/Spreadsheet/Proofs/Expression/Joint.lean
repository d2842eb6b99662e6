import Spreadsheet.Proofs.Expression.Operand

/-!
Texts that may be joined without joining tokens. Behind an operator or a mark comes any text that
does not go on with the symbol, and behind a numeral without exponent, or a name, one that does not
start with a word or a point.
-/
namespace Spreadsheet.Expression

open Text (isBlank isWord)
open Token

variable {c : Char} {w r r' t u : Text} {k : Token} {ts us : List Token}

/-- The character ends names and numerals without exponent. -/
def Breaks (c : Char) : Prop := isWord c = false ∧ c ≠ '.'

theorem Longest.congr {kind : Text → Prop} (h : Longest kind w r) (hr : r.head? = r'.head?) :
    Longest kind w r' := ⟨h.1, fun c hc => h.2 c (hr ▸ hc)⟩

/-- Of the text behind a token only the first character counts. -/
theorem Lexeme.congr (h : Lexeme w r k) (hr : r.head? = r'.head?) : Lexeme w r' k := by
  cases h with
  | symbol h hk => exact .symbol (h.congr hr) hk
  | number h hx => exact .number (h.congr hr) hx
  | name h => exact .name (h.congr hr)

theorem Spells.eq_nil (h : Spells [] ts) : ts = [] := by
  have htokens := ofText_eq_iff.2 h
  rw [Tokens.ofText] at htokens
  exact (congrArg Tokens.tokens htokens).symm

section Symbol

theorem longest_symbol (h : IsSymbol w) (hr : ∀ c ∈ r.head?, c ≠ '=' ∧ c ≠ '>') :
    Longest IsSymbol w r := by
  refine ⟨h, fun c hc => ?_⟩
  rintro ⟨k', hk'⟩
  obtain ⟨k, hk⟩ := h
  have hsecond : ∀ e ∈ symbols, e.1 ≠ [] ∧
      (e.1.dropLast = [] ∨ e.1.getLast? = some '=' ∨ e.1.getLast? = some '>') := by
    decide
  rcases (hsecond _ hk').2 with h | h | h
  · rw [List.dropLast_concat] at h
    exact (hsecond _ hk).1 h
  · rw [List.getLast?_concat] at h
    exact (hr c hc).1 (Option.some.inj h)
  · rw [List.getLast?_concat] at h
    exact (hr c hc).2 (Option.some.inj h)

theorem lexeme_mark (hk : ([c], k) ∈ symbols) (hc : c ∉ ['<', '>', '=']) (r : Text) :
    Lexeme [c] r k := by
  refine .symbol ⟨⟨k, hk⟩, fun d _ => ?_⟩ hk
  rintro ⟨k', hk'⟩
  have hall : symbols.all (fun e => e.1.tail == [] ||
      e.1.head?.all ['<', '>', '=', '!'].contains) = true := by
    decide
  have hfirst : c ∈ ['<', '>', '='] ++ ['!'] := by simpa using List.all_eq_true.1 hall _ hk'
  rcases List.mem_append.1 hfirst with h | h
  · exact hc h
  · rw [List.mem_singleton.1 h] at hk
    simp [symbols] at hk

/-- A text whose first token is no operand does not start with a word or a point. -/
theorem Spells.breaks (h : Spells t ts) (hts : ∀ k ∈ ts.head?, isOperand k = false) :
    ∀ c ∈ t.head?, Breaks c := by
  intro c hc
  cases h with
  | nil => cases hc
  | blank hblank _ =>
    obtain rfl := Option.some.inj hc
    refine ⟨Text.isWord_of_isBlank hblank, ?_⟩
    rintro rfl
    exact absurd hblank (by decide)
  | @token w t k ts hw _ =>
    have hk := hts k rfl
    cases hw with
    | symbol _ hsymbol =>
      obtain ⟨d, t, rfl, hd⟩ := exists_cons_of_mem_symbols hsymbol
      obtain rfl := Option.some.inj hc
      obtain ⟨hword, -, hpoint⟩ := of_mem_symbolStarts hd
      exact ⟨hword, hpoint⟩
    | number _ _ => cases hk
    | name _ => cases hk

/-- Behind a text whose last token is no operand comes any text that goes on with no symbol. -/
theorem Spells.append (ht : Spells t ts) (hlast : ∀ k ∈ ts.getLast?, isOperand k = false)
    (hhead : ∀ c ∈ u.head?, c ≠ '=' ∧ c ≠ '>') (hu : Spells u us) :
    Spells (t ++ u) (ts ++ us) := by
  induction ht with
  | nil => exact hu
  | blank hc _ ih => exact .blank hc (ih hlast)
  | @token w t k ts hw h ih =>
    have hlexeme : Lexeme w (t ++ u) k := by
      cases t with
      | cons c t => exact hw.congr rfl
      | nil =>
        obtain rfl := h.eq_nil
        have hk := hlast k rfl
        cases hw with
        | symbol h hsymbol => exact .symbol (longest_symbol h.1 hhead) hsymbol
        | number _ _ => cases hk
        | name _ => cases hk
    rw [List.append_assoc]
    refine .token hlexeme (ih fun j hj => hlast j ?_)
    rw [Option.mem_def] at hj ⊢
    rw [List.getLast?_cons, hj]
    rfl

end Symbol

section Name

theorem isWord_of_isNamePart (h : isNamePart c = true) : isWord c = true := by
  simp only [isNamePart, Bool.or_eq_true, beq_iff_eq] at h
  rcases h with h | rfl
  · exact Text.isWord_of_isAlphanum h
  · decide

theorem Breaks.isNamePart (h : Breaks c) : isNamePart c = false := by
  refine Bool.eq_false_iff.2 fun hpart => ?_
  rw [Breaks, isWord_of_isNamePart hpart] at h
  cases h.1

theorem isNamePart_of_isNameStart (h : isNameStart c = true) : isNamePart c = true := by
  simp only [isNameStart, Bool.or_eq_true] at h
  simp only [isNamePart, Char.isAlphanum, Bool.or_eq_true]
  tauto

theorem IsName.isNamePart (h : IsName w) (hc : c ∈ w) : isNamePart c = true := by
  cases w with
  | nil => cases hc
  | cons d w =>
    rcases List.mem_cons.1 hc with rfl | hc
    · exact isNamePart_of_isNameStart h.1
    · exact h.2 c hc

theorem isNamePart_of_isDigit (h : c.isDigit = true) : isNamePart c = true := by
  simp [isNamePart, Char.isAlphanum, h]

theorem longest_name (h : IsName w) (hr : ∀ c ∈ r.head?, Breaks c) : Longest IsName w r := by
  refine ⟨h, fun c hc hname => ?_⟩
  have hpart := (hr c hc).isNamePart
  rw [hname.isNamePart (by simp)] at hpart
  cases hpart

end Name

section Numeral

variable {x z : Text}

def IsMark (c : Char) : Prop := c = 'e' ∨ c = 'E'

def IsSign (c : Char) : Prop := c = '+' ∨ c = '-'

theorem IsMark.ne (h : IsMark c) : c.isDigit = false ∧ c ≠ '.' ∧ ¬IsSign c := by
  rcases h with rfl | rfl <;> simp [IsSign]

/-- The text ends with a digit or a point. -/
def EndsInFigure (x : Text) : Prop := ∃ y d, x = y ++ [d] ∧ (d.isDigit = true ∨ d = '.')

theorem EndsInFigure.ne_nil (h : EndsInFigure x) : x ≠ [] := by
  obtain ⟨y, d, rfl, -⟩ := h
  exact List.append_ne_nil_of_right_ne_nil y (List.cons_ne_nil d [])

/-- The text ends with a digit or a point and then an exponent mark. -/
def EndsInMark (x : Text) : Prop :=
  ∃ y d m, x = y ++ [d, m] ∧ (d.isDigit = true ∨ d = '.') ∧ IsMark m

theorem IsExponent.middle (h : IsExponent (x ++ c :: z)) :
    c.isDigit = true ∨ IsMark c ∧ x = [] ∨ IsSign c ∧ ∃ m, x = [m] ∧ IsMark m := by
  generalize hw : x ++ c :: z = w at h
  cases h with
  | none => simp at hw
  | @mark m sign ds hm hsign hds =>
    cases x with
    | nil =>
      obtain ⟨rfl, -⟩ := List.cons.inj hw
      exact .inr (.inl ⟨hm, rfl⟩)
    | cons d x =>
      obtain ⟨rfl, hrest⟩ := List.cons.inj hw
      have hdigit : ∀ y, y ++ c :: z = ds → c.isDigit = true := by
        rintro y rfl
        exact hds c (by simp)
      rcases hsign with rfl | hsign
      · exact .inl (hdigit x hrest)
      · obtain ⟨e, rfl, he⟩ : ∃ e, sign = [e] ∧ IsSign e := by
          rcases hsign with rfl | rfl
          · exact ⟨'+', rfl, .inl rfl⟩
          · exact ⟨'-', rfl, .inr rfl⟩
        cases x with
        | nil =>
          obtain ⟨rfl, -⟩ := List.cons.inj hrest
          exact .inr (.inr ⟨he, d, rfl, hm⟩)
        | cons _ x => exact .inl (hdigit x (List.cons.inj hrest).2)

theorem IsExponent.eq_nil_of_isMark (h : IsExponent (x ++ c :: z)) (hc : IsMark c) : x = [] := by
  obtain ⟨hdigit, -, hsign⟩ := hc.ne
  rcases h.middle with h | ⟨-, hx⟩ | ⟨h, -⟩
  · rw [hdigit] at h
    cases h
  · exact hx
  · exact absurd h hsign

theorem NumeralParts.mem_front {whole fraction exponent : Text}
    (h : NumeralParts whole fraction exponent) (hc : c ∈ whole ++ fraction) :
    c.isDigit = true ∨ c = '.' := by
  rcases List.mem_append.1 hc with hc | hc
  · exact .inl (h.digits c hc)
  · cases h.isFraction with
    | none => cases hc
    | point hds => exact (List.mem_cons.1 hc).symm.imp (hds c) id

theorem NumeralParts.endsInFigure {whole fraction exponent : Text}
    (h : NumeralParts whole fraction exponent) : EndsInFigure (whole ++ fraction) := by
  rcases List.eq_nil_or_concat' (whole ++ fraction) with hnil | ⟨y, d, heq⟩
  · obtain ⟨hwhole, hfraction⟩ := List.append_eq_nil_iff.1 hnil
    have hlength := h.first hwhole
    rw [hfraction] at hlength
    cases hlength
  · exact ⟨y, d, heq, h.mem_front (by simp [heq])⟩

/-- An exponent mark in a numeral stands behind a digit or a point, and a sign behind the mark. -/
theorem IsNumeral.middle (h : IsNumeral (x ++ c :: z)) :
    c.isDigit = true ∨ c = '.' ∨ IsMark c ∧ EndsInFigure x ∨ IsSign c ∧ EndsInMark x := by
  obtain ⟨whole, fraction, exponent, heq, hparts⟩ := h
  have hfigure := hparts.endsInFigure
  have hexponent := hparts.isExponent
  rw [← List.append_assoc] at heq
  rcases List.append_eq_append_iff.1 heq with ⟨y, hy, hcz⟩ | ⟨y, rfl, hexp⟩
  · cases y with
    | nil =>
      obtain rfl : x = whole ++ fraction := by simpa using hy.symm
      rw [List.nil_append] at hcz
      exact .inr (.inr (.inl ⟨hexponent.head c (by rw [← hcz]; rfl), hfigure⟩))
    | cons d y =>
      obtain ⟨rfl, -⟩ := List.cons.inj hcz
      exact (hparts.mem_front (by simp [hy])).imp id .inl
  · rw [hexp] at hexponent
    rcases hexponent.middle with hdigit | ⟨hmark, rfl⟩ | ⟨hsign, m, rfl, hm⟩
    · exact .inl hdigit
    · rw [List.append_nil]
      exact .inr (.inr (.inl ⟨hmark, hfigure⟩))
    · obtain ⟨y, d, hyd, hd⟩ := hfigure
      exact .inr (.inr (.inr ⟨hsign, y, d, m, by simp [hyd], hd, hm⟩))

theorem IsNumeral.mem (h : IsNumeral w) (hc : c ∈ w) :
    c.isDigit = true ∨ c = '.' ∨ IsMark c ∨ IsSign c := by
  obtain ⟨x, z, rfl⟩ := List.append_of_mem hc
  exact h.middle.imp_right (Or.imp_right (Or.imp And.left And.left))

theorem IsMark.isNamePart (h : IsMark c) : isNamePart c = true := by
  rcases h with rfl | rfl <;> rfl

/-- A character of a numeral that is no part of a name and no point is the sign of its exponent. -/
theorem IsNumeral.isSign (h : IsNumeral (x ++ c :: z)) (hpart : isNamePart c = false)
    (hpoint : c ≠ '.') : IsSign c ∧ EndsInMark x := by
  rcases h.middle with hdigit | hdot | ⟨hmark, -⟩ | hsign
  · rw [isNamePart_of_isDigit hdigit] at hpart
    cases hpart
  · exact absurd hdot hpoint
  · rw [hmark.isNamePart] at hpart
    cases hpart
  · exact hsign

/-- Digits, and perhaps a point with digits behind it. -/
def IsPlainNumeral (w : Text) : Prop :=
  ∃ whole fraction, w = whole ++ fraction ∧ Digits whole ∧ whole ≠ [] ∧ IsFraction fraction

theorem IsPlainNumeral.isNumeral (h : IsPlainNumeral w) : IsNumeral w := by
  obtain ⟨whole, fraction, rfl, hwhole, hne, hfraction⟩ := h
  exact ⟨whole, fraction, [], by simp, hwhole, hfraction, .none, fun hnil => absurd hnil hne⟩

theorem IsPlainNumeral.ne_nil (h : IsPlainNumeral w) : w ≠ [] := by
  obtain ⟨whole, fraction, rfl, -, hne, -⟩ := h
  exact List.append_ne_nil_of_left_ne_nil hne fraction

theorem IsPlainNumeral.mem (h : IsPlainNumeral w) (hc : c ∈ w) : c.isDigit = true ∨ c = '.' := by
  obtain ⟨whole, fraction, rfl, hwhole, -, hfraction⟩ := h
  rcases List.mem_append.1 hc with hc | hc
  · exact .inl (hwhole c hc)
  · cases hfraction with
    | none => cases hc
    | point hds => exact (List.mem_cons.1 hc).symm.imp (hds c) id

theorem IsPlainNumeral.longest (h : IsPlainNumeral w) (hr : ∀ c ∈ r.head?, Breaks c) :
    Longest IsNumeral w r := by
  refine ⟨h.isNumeral, fun c hc hnumeral => ?_⟩
  obtain ⟨-, y, d, m, rfl, -, hm⟩ := hnumeral.isSign (hr c hc).isNamePart (hr c hc).2
  obtain ⟨hdigit, hpoint, -⟩ := hm.ne
  rcases h.mem (c := m) (by simp) with h | h
  · rw [hdigit] at h
    cases h
  · exact hpoint h

end Numeral

end Spreadsheet.Expression
