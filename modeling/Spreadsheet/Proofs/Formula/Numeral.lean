import Spreadsheet.Proofs.Formula.Side
import Spreadsheet.Proofs.Formula.Trim

/-!
Numbers as formula text. A text that is a number may yet hold a reference: an exponent mark `E` right
behind the point, with a row number behind it, stands on its own as the scanner sees it. Main
statement: in no other number is a token, and every number without one is a formula that evaluates
to it, wherever it stands.
-/
namespace Spreadsheet.Expression

variable {w : Text} {c : Char}

theorem EndsNumber.isUpper (h : EndsNumber c) : c.isUpper = false := by
  rcases h with h | rfl
  · exact Text.isUpper_of_isDigit h
  · rfl

/-- The only capital in a numeral is an exponent mark behind a digit or a point. -/
theorem IsNumeral.isUpper_or_mark (h : IsNumeral w) : (∀ c ∈ w, c.isUpper = false) ∨
    ∃ x z, w = x ++ 'E' :: z ∧ x ≠ [] ∧ (∀ c ∈ x, EndsNumber c) ∧ IsExponent ('E' :: z) := by
  obtain ⟨whole, fraction, exponent, rfl, hparts⟩ := h
  have hfront : ∀ c ∈ whole ++ fraction, EndsNumber c := fun _ => hparts.mem_front
  rw [← List.append_assoc]
  have hexponent := hparts.isExponent
  have hplain (hno : ∀ c ∈ exponent, c.isUpper = false) :
      ∀ c ∈ whole ++ fraction ++ exponent, c.isUpper = false := by
    intro c hc
    rcases List.mem_append.1 hc with hc | hc
    · exact (hfront c hc).isUpper
    · exact hno c hc
  cases hexponent with
  | none => exact .inl (hplain nofun)
  | @mark m sign ds hm hsign hds =>
    rcases hm with rfl | rfl
    · refine .inl (hplain fun c hc => ?_)
      rcases List.mem_cons.1 hc with rfl | hc
      · rfl
      · rcases List.mem_append.1 hc with hc | hc
        · rcases hsign with rfl | rfl | rfl
          · cases hc
          all_goals
            obtain rfl := List.mem_singleton.1 hc
            rfl
        · exact Text.isUpper_of_isDigit (hds c hc)
    · exact .inr ⟨_, _, rfl, hparts.endsInFigure.ne_nil, hfront, hparts.isExponent⟩

end Spreadsheet.Expression

namespace Spreadsheet.Formula

open Expression (Digits EndsNumber IsExponent IsNumeral)
open Reference (readRow?)
open Text (trim)

variable {t u w z : Text} {c d : Char} {n : Float}

section Tokens

theorem isClear_of_endsNumber (h : EndsNumber c) : isClear c = true := by
  refine isClear_iff.2 ⟨h.isUpper, ?_, ?_⟩ <;>
  · rintro rfl
    rcases h with h | h <;> cases h

theorem opensToken_of_endsNumber (h : EndsNumber d) : opensToken (some d) = true ↔ d = '.' := by
  constructor
  · intro hopens
    refine h.resolve_left fun hdigit => ?_
    rw [opensToken_of_isRefChar (by simp [isRefChar, hdigit])] at hopens
    cases hopens
  · rintro rfl
    rfl

theorem read?_mark (hz : Digits z) (hne : z ≠ []) :
    Reference.read? ('E' :: z) = (readRow? z).map fun row => .relative ⟨row, 4⟩ := by
  have hspelled : Reference.Spelled ['E'] z := ⟨by simp, by simp, hne, hz⟩
  have hread := hspelled.read? false false
  have hcolumn : Column.read? ['E'] = some 4 := by decide +kernel
  rw [hcolumn] at hread
  exact hread

theorem candidate_mark (hz : Digits z) (hne : z ≠ []) :
    Candidate.read? ('E' :: z) = some ⟨'E' :: z, none, []⟩ := by
  have hspelled : Reference.Spelled ['E'] z := ⟨by simp, by simp, hne, hz⟩
  have hsplit := splitReference?_spelled (b := []) hspelled false false (by simp)
  rw [List.append_nil] at hsplit
  exact Candidate.read?_eq_some_iff.2 ⟨by simp [Candidate.text], hsplit, by simp, by simp, by simp⟩

theorem pieces_mark (d : Char) : Candidate.pieces ⟨'E' :: z, none, []⟩ (some d) =
    if opensToken (some d) then Candidate.firstAlone ⟨'E' :: z, none, []⟩ []
    else Piece.ofText ('E' :: z) := rfl

/-- An exponent is the mark and digits, or has nothing of a reference behind the mark. -/
theorem digits_or_clear_of_isExponent (h : IsExponent ('E' :: z)) : z ≠ [] ∧ Digits z ∨
    readRow? z = none ∧ (∀ c ∈ z.head?, isRefChar c = false) ∧ ∀ c ∈ z, isClear c = true := by
  have hsigned {m : Char} {ds : Text} (hm : m = '+' ∨ m = '-') (hds : Digits ds) :
      readRow? (m :: ds) = none ∧ (∀ c ∈ (m :: ds).head?, isRefChar c = false) ∧
        ∀ c ∈ m :: ds, isClear c = true := by
    have hsign : m.isDigit = false ∧ isRefChar m = false ∧ isClear m = true := by
      rcases hm with rfl | rfl <;> exact ⟨rfl, rfl, rfl⟩
    obtain ⟨hdigit, href, hclear⟩ := hsign
    refine ⟨by simp [readRow?, Number.readNat?, hdigit], by simpa using href, ?_⟩
    exact List.forall_mem_cons.2 ⟨hclear, fun c hc => isClear_of_endsNumber (.inl (hds c hc))⟩
  cases h with
  | @mark m sign ds _ hsign hds =>
    rcases hsign with rfl | rfl | rfl
    · by_cases hne : ds = []
      · subst hne
        exact .inr ⟨rfl, by simp, by simp⟩
      · exact .inl ⟨hne, hds⟩
    · exact .inr (hsigned (.inl rfl) hds)
    · exact .inr (hsigned (.inr rfl) hds)

/-- Behind the digits of a numeral, the exponent mark begins a token only after a point, and only
with a row number. -/
theorem tokens_mark (hu : ∀ c ∈ u, isClear c = true) (hd : d ∈ u.getLast?) (hends : EndsNumber d)
    (hz : IsExponent ('E' :: z)) :
    tokens (u ++ 'E' :: z) = [] ↔ (d = '.' → readRow? z = none) := by
  rw [tokens_eq, scan, scanFrom_of_clear hu, List.filterMap_append, filterMap_token?_ofText,
    List.nil_append, Option.mem_def.1 hd, Option.some_or]
  rcases digits_or_clear_of_isExponent hz with ⟨hne, hdigits⟩ | ⟨hrow, hhead, hclear⟩
  · rw [scanFrom_of_some (some d) (candidate_mark hdigits hne), scanFrom, List.append_nil,
      pieces_mark]
    by_cases hpoint : d = '.'
    · rw [if_pos ((opensToken_of_endsNumber hends).2 hpoint), Candidate.firstAlone,
        read?_mark hdigits hne]
      cases readRow? z with
      | none => exact iff_of_true (filterMap_token?_ofText _) fun _ => rfl
      | some row => simp [Piece.token?, hpoint]
    · rw [if_neg (mt (opensToken_of_endsNumber hends).1 hpoint), filterMap_token?_ofText]
      exact iff_of_true rfl fun h => absurd h hpoint
  · have hnone : Candidate.read? ('E' :: z) = none :=
      candidate_eq_none (splitReference?_of_capitals (x := ['E']) (by simp) hhead)
    rw [scanFrom_of_none (some d) (by decide) hnone, scanFrom_eq_ofText hclear]
    exact iff_of_true (filterMap_token?_ofText ('E' :: z)) fun _ => hrow

theorem exists_numeral_of_parse? (h : Number.parse? t = some n) : ∃ sign w, trim t = sign ++ w ∧
    IsNumeral w ∧ (∀ c ∈ w.getLast?, EndsNumber c) ∧ ∀ c ∈ sign, c = '+' ∨ c = '-' := by
  obtain ⟨hread, -⟩ := Option.filter_eq_some_iff.1 h
  obtain ⟨sign, w, y, heq, hw, -, hlast, hsign⟩ := Expression.exists_numeral_of_readFloat? hread
  refine ⟨sign, w, heq, hw, hlast, ?_⟩
  rcases hsign with ⟨rfl | rfl, -⟩ | ⟨rfl, -⟩ <;> simp

theorem isClear_of_sign (h : c = '+' ∨ c = '-') : isClear c = true := by
  rcases h with rfl | rfl <;> rfl

theorem isClear_of_isNumeral (hw : IsNumeral w) (hc : c ∈ w) (hup : c.isUpper = false) :
    isClear c = true := by
  rcases hw.mem hc with hdigit | rfl | (rfl | rfl) | hsign
  · exact isClear_of_endsNumber (.inl hdigit)
  · rfl
  · rfl
  · cases hup
  · exact isClear_of_sign hsign

/-- A number has no token unless a row number stands behind its point and a mark `E`. -/
theorem tokens_eq_nil_iff_of_parse? (h : Number.parse? t = some n) :
    tokens t = [] ↔ ∀ a r, trim t = a ++ '.' :: 'E' :: r → readRow? r = none := by
  obtain ⟨sign, w, heq, hw, -, hsign⟩ := exists_numeral_of_parse? h
  rw [← tokens_trim, heq]
  rcases hw.isUpper_or_mark with hno | ⟨x, z, rfl, hne, hx, hz⟩
  · have hclear : ∀ c ∈ sign ++ w, isClear c = true := fun c hc =>
      (List.mem_append.1 hc).elim (fun hc => isClear_of_sign (hsign c hc)) fun hc =>
        isClear_of_isNumeral hw hc (hno c hc)
    rw [tokens_eq, scan, scanFrom_eq_ofText hclear]
    refine iff_of_true (filterMap_token?_ofText _) fun a r har => ?_
    have hmark : 'E' ∈ sign ++ w := by simp [har]
    exact absurd (hclear _ hmark) (by decide)
  · have hclear : ∀ c ∈ sign ++ x, isClear c = true := fun c hc =>
      (List.mem_append.1 hc).elim (fun hc => isClear_of_sign (hsign c hc)) fun hc =>
        isClear_of_endsNumber (hx c hc)
    have hmark : 'E' ∉ sign ++ x := fun hmem => absurd (hclear _ hmem) (by decide)
    have hlast : x.getLast hne ∈ (sign ++ x).getLast? := by
      rw [Option.mem_def, getLast?_append_right hne, List.getLast?_eq_some_getLast hne]
    have hrest : 'E' ∉ z := by
      intro hmem
      obtain ⟨y, r, rfl⟩ := List.append_of_mem hmem
      exact absurd (hz.eq_nil_of_isMark (x := 'E' :: y) (.inr rfl)) (List.cons_ne_nil _ _)
    rw [← List.append_assoc, tokens_mark hclear hlast (hx _ (List.getLast_mem hne)) hz]
    constructor
    · intro hrow a r har
      rw [List.append_cons a] at har
      obtain ⟨hfront, -, rfl⟩ := (List.append_cons_inj_of_notMem hmark hrest).1 har
      rw [hfront, List.getLast?_concat, Option.mem_def, Option.some.injEq] at hlast
      exact hrow hlast.symm
    · intro hrow hpoint
      refine hrow (sign ++ x.dropLast) z ?_
      have hsplit := List.dropLast_concat_getLast hne
      rw [hpoint] at hsplit
      conv_lhs => rw [← hsplit]
      simp

end Tokens

section Value

theorem plain_of_parse? (h : Number.parse? t = some n) (hc : c ∈ trim t) :
    isForeign c = false ∧ Text.weight c = 0 := by
  obtain ⟨sign, w, heq, hw, -, hsign⟩ := exists_numeral_of_parse? h
  rw [heq] at hc
  rcases List.mem_append.1 hc with hc | hc
  · rcases hsign c hc with rfl | rfl <;> decide
  · exact plain_of_isNumeral hw hc

theorem callFree_of_parse? (h : Number.parse? t = some n) : CallFree (trim t) := by
  refine callFree_of_chain (List.Pairwise.isChain (List.pairwise_of_forall_mem_list ?_))
  rintro c - d hd rfl
  cases (plain_of_parse? h hd).2

theorem composite_of_parse? (h : Number.parse? t = some n) : Composite (trim t) := by
  have hnot {c : Char} (hc : isForeign c = true) : c ∉ trim t := by
    intro hmem
    rw [(plain_of_parse? h hmem).1] at hc
    cases hc
  refine ⟨?_, literal?_eq_none (hnot (by rfl)), readRange?_eq_none (hnot (by rfl))⟩
  cases hr : Reference.read? (trim t) with
  | none => rfl
  | some r =>
    obtain ⟨hread, -⟩ := Option.filter_eq_some_iff.1 h
    obtain ⟨c, rest, hcons, hc⟩ := exists_cons_of_isReferenceText (splitReference?_of_read? hr)
    rw [hcons] at hread
    obtain ⟨d, hd, -⟩ := exists_endsNumber_of_readFloat? (w := []) hread hc
    cases hd

theorem trim_ne_nil_of_parse? (h : Number.parse? t = some n) : trim t ≠ [] := by
  obtain ⟨sign, w, heq, hw, -, -⟩ := exists_numeral_of_parse? h
  obtain ⟨c, r, hcons, -⟩ := hw.starts []
  rw [List.append_nil] at hcons
  rw [heq, hcons]
  exact List.append_ne_nil_of_right_ne_nil _ (List.cons_ne_nil _ _)

theorem kind_of_parse? (h : Number.parse? t = some n) : (Argument.read t).kind = .number n := by
  obtain ⟨href, hliteral, hrange⟩ := composite_of_parse? h
  have hparse : Number.parse? (trim t) = some n := by
    rw [Number.parse?, Text.trim_of_trimmed (Text.trimmed_trim t)]
    exact h
  unfold Argument.read Argument.kindOf
  rw [if_neg (trim_ne_nil_of_parse? h), hrange, href, hliteral, hparse]

/-- A number that holds no token evaluates to itself, without a look at the sheet. -/
theorem value_of_parse? (h : Number.parse? t = some n) (ht : tokens t = []) (o : Options) :
    value o t = .done (.number n) := by
  obtain ⟨hread, hfinite⟩ := Option.filter_eq_some_iff.1 h
  obtain ⟨e, hparse, he⟩ := Expression.exists_parse_of_readFloat? hread
  have hevaluate : Expression.evaluate (trim t) = .ok (.number n) := by
    rw [Expression.evaluate, hparse]
    simp only [he, Expression.Scalar.isFinite, hfinite, if_true]
  have hsubstitute : substituteReferences (trim t) = .done (trim t) := by
    have hpieces := substitutePieces_append (trim t) []
    rw [List.append_nil] at hpieces
    rw [substituteReferences, scan_of_tokens_eq_nil (by rwa [tokens_trim]), hpieces]
    exact congrArg Query.done (List.append_nil (trim t))
  rw [value, valueWith_of_callFree (callFree_of_parse? h) (composite_of_parse? h)
    (trim_ne_nil_of_parse? h), hsubstitute]
  exact congrArg (fun r => Query.ofExcept (ofScalar r)) hevaluate

end Value

/-- A number is the same number as an argument and as a formula, and no token is seen in it, unless
a mark `E` follows its point and a row number the mark: only then the scanner sees a reference. -/
theorem answer_value_of_number (h : Number.parse? t = some n) :
    (Argument.read t).kind = .number n ∧
      (tokens t = [] ↔ ∀ a r, trim t = a ++ '.' :: 'E' :: r → readRow? r = none) ∧
      (tokens t = [] → ∀ (x : Context) (p : Progress),
        x.answer (value x.options t) p = (.ok (.number n), p)) := by
  refine ⟨kind_of_parse? h, tokens_eq_nil_iff_of_parse? h, fun ht x p => ?_⟩
  rw [value_of_parse? h ht]
  rfl

/-- Blanks, a sign, a fraction and a signed exponent after a capital mark. -/
theorem answer_value_of_number_exponent :
    Number.parse? " -12.5E+3 ".toList = some (-12500) ∧
      tokens " -12.5E+3 ".toList = [] ∧
      ∀ (x : Context) (p : Progress),
        x.answer (value x.options " -12.5E+3 ".toList) p = (.ok (.number (-12500)), p) := by
  have hparse : Number.parse? " -12.5E+3 ".toList = some (-12500) := by decide +kernel
  have htokens : tokens " -12.5E+3 ".toList = [] := by decide +kernel
  obtain ⟨-, -, hvalue⟩ := answer_value_of_number hparse
  exact ⟨hparse, htokens, hvalue htokens⟩

/-- With the mark right behind the point, row five of column `E` is seen. -/
example : tokens "1.E5".toList = [.cell (.relative ⟨4, 4⟩)] := by decide +kernel

end Spreadsheet.Formula
