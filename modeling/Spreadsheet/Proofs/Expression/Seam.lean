import Spreadsheet.Proofs.Expression.Joint

/-!
Texts that are cut into tokens each by itself. As long as no symbol, numeral or name reaches from one
text into the next, both together have the tokens of the first and then those of the second. An
operand may be set behind a text that ends with no operand and with no sign of an exponent, and in
front of a text that does not go on with a name or a point.
-/
namespace Spreadsheet.Expression

open Text (isBlank)
open Token

variable {a c : Char} {u v w x y z r t : Text} {k : Token} {ts us xs : List Token}

/-- A text of the kind of some token. -/
def IsUnit (w : Text) : Prop := IsSymbol w ∨ IsNumeral w ∨ IsName w

theorem Lexeme.isUnit (h : Lexeme w r k) : IsUnit w := by
  cases h with
  | symbol h _ => exact .inl h.1
  | number h _ => exact .inr (.inl h.1)
  | name h => exact .inr (.inr h.1)

theorem IsUnit.ne_nil (h : IsUnit w) : w ≠ [] := by
  rintro rfl
  rcases h with ⟨k, hk⟩ | h | h
  · obtain ⟨c, t, hct, -⟩ := exists_cons_of_mem_symbols hk
    cases hct
  · obtain ⟨whole, fraction, exponent, hnil, -, -, -, hfirst⟩ := h
    obtain ⟨hwhole, hrest⟩ := List.append_eq_nil_iff.1 hnil.symm
    have hlength := hfirst hwhole
    rw [(List.append_eq_nil_iff.1 hrest).1] at hlength
    cases hlength
  · exact h

theorem Lexeme.alone (h : Lexeme w r k) : Lexeme w [] k := by
  cases h with
  | symbol h hk => exact .symbol ⟨h.1, nofun⟩ hk
  | number h hx => exact .number ⟨h.1, nofun⟩ hx
  | name h => exact .name ⟨h.1, nofun⟩

/-- No symbol, numeral or name reaches from the first text into the second. -/
def Cuts (u v : Text) : Prop :=
  ∀ y z, y <:+ u → z <+: v → y ≠ [] → z ≠ [] → ¬IsUnit (y ++ z)

theorem Cuts.suffix (h : Cuts u v) (hw : w <:+ u) : Cuts w v :=
  fun y z hy => h y z (hy.trans hw)

/-- The last token of a text stays one before a text that it does not reach into. -/
theorem Lexeme.cuts (h : Lexeme w [] k) (hcuts : Cuts w v) : Lexeme w v k := by
  have hends : ∀ c ∈ v.head?, ¬IsUnit (w ++ [c]) := by
    intro c hc
    obtain ⟨v, rfl⟩ := List.head?_eq_some_iff.1 hc
    exact hcuts w [c] List.suffix_rfl ⟨v, rfl⟩ h.isUnit.ne_nil (List.cons_ne_nil c [])
  cases h with
  | symbol h hk => exact .symbol ⟨h.1, fun c hc hkind => hends c hc (.inl hkind)⟩ hk
  | number h hx => exact .number ⟨h.1, fun c hc hkind => hends c hc (.inr (.inl hkind))⟩ hx
  | name h => exact .name ⟨h.1, fun c hc hkind => hends c hc (.inr (.inr hkind))⟩

theorem Spells.append_of_cuts {vs : List Token} (hu : Spells u us) (hv : Spells v vs)
    (hcuts : Cuts u v) : Spells (u ++ v) (us ++ vs) := by
  induction hu with
  | nil => exact hv
  | @blank c t ts hc _ ih => exact .blank hc (ih (hcuts.suffix (List.suffix_cons c t)))
  | @token w t k ts hw _ ih =>
    rw [List.append_assoc]
    refine .token ?_ (ih (hcuts.suffix (List.suffix_append w t)))
    cases t with
    | cons c t => exact hw.congr rfl
    | nil =>
      rw [List.append_nil] at hcuts
      exact hw.cuts hcuts

theorem exists_spells_of_append (h : Spells (u ++ v) ts) (hcuts : Cuts u v) :
    ∃ us vs, ts = us ++ vs ∧ Spells u us ∧ Spells v vs := by
  generalize hx : u ++ v = x at h
  induction h generalizing u with
  | nil =>
    obtain ⟨rfl, rfl⟩ := List.append_eq_nil_iff.1 hx
    exact ⟨[], [], rfl, .nil, .nil⟩
  | @blank c t ts hc h ih =>
    cases u with
    | nil =>
      rw [List.nil_append] at hx
      rw [hx]
      exact ⟨[], ts, rfl, .nil, .blank hc h⟩
    | cons d u =>
      obtain ⟨rfl, ht⟩ := List.cons.inj hx
      obtain ⟨us, vs, hts, hus, hvs⟩ := ih (hcuts.suffix (List.suffix_cons d u)) ht
      exact ⟨us, vs, hts, .blank hc hus, hvs⟩
  | @token w t k ts hw h ih =>
    rcases List.append_eq_append_iff.1 hx with ⟨z, rfl, rfl⟩ | ⟨y, rfl, rfl⟩
    · by_cases hu : u = []
      · subst u
        exact ⟨[], k :: ts, rfl, .nil, .token hw h⟩
      · by_cases hz : z = []
        · subst z
          rw [List.append_nil] at hw
          have hfirst := Spells.token hw.alone .nil
          rw [List.append_nil] at hfirst
          exact ⟨[k], ts, rfl, hfirst, h⟩
        · exact absurd hw.isUnit (hcuts u z List.suffix_rfl ⟨t, rfl⟩ hu hz)
    · obtain ⟨us, vs, rfl, hus, hvs⟩ := ih (hcuts.suffix (List.suffix_append w y)) rfl
      refine ⟨k :: us, vs, rfl, .token ?_ hus, hvs⟩
      cases y with
      | nil => exact hw.alone
      | cons c y => exact hw.congr rfl

/-- Texts that no token joins have their tokens each by itself. -/
theorem spells_append_iff (hcuts : Cuts u v) :
    Spells (u ++ v) ts ↔ ∃ us vs, ts = us ++ vs ∧ Spells u us ∧ Spells v vs := by
  constructor
  · exact fun h => exists_spells_of_append h hcuts
  · rintro ⟨us, vs, rfl, hu, hv⟩
    exact hu.append_of_cuts hv hcuts

/-- A token with a character that is no part of a name and no point is a symbol, or the character is
the sign of an exponent. -/
theorem IsUnit.isSymbol_or_isSign (h : IsUnit (x ++ c :: z)) (hpart : isNamePart c = false)
    (hpoint : c ≠ '.') : IsSymbol (x ++ c :: z) ∨ IsSign c ∧ EndsInMark x := by
  rcases h with h | h | h
  · exact .inl h
  · exact .inr (h.isSign hpart hpoint)
  · rw [h.isNamePart (by simp)] at hpart
    cases hpart

theorem IsUnit.not_isBlank (h : IsUnit w) (hc : c ∈ w) : isBlank c = false := by
  have hword : Token.isNamePart c = true → isBlank c = false := fun hpart =>
    isBlank_of_isWord (isWord_of_isNamePart hpart)
  rcases h with ⟨k, hk⟩ | h | h
  · have hall : symbols.all (fun e => e.1.all (!isBlank ·)) = true := by decide
    simpa using List.all_eq_true.1 (List.all_eq_true.1 hall _ hk) c hc
  · rcases h.mem hc with hdigit | rfl | hmark | rfl | rfl
    · exact hword (isNamePart_of_isDigit hdigit)
    · decide
    · exact hword hmark.isNamePart
    all_goals decide
  · exact hword (h.isNamePart hc)

/-- The last character that is no blank ends no operand: it is no part of a name, no point, no closing
parenthesis and no sign of an exponent. -/
def EndsOpen (u : Text) : Prop :=
  ∀ x c bs, u = x ++ c :: bs → (∀ b ∈ bs, isBlank b = true) → isBlank c = false →
    (isNamePart c = false ∧ c ≠ '.' ∧ c ≠ ')') ∧ (IsSign c → ¬EndsInMark x)

theorem EndsOpen.suffix (h : EndsOpen u) (hw : w <:+ u) : EndsOpen w := by
  obtain ⟨v, rfl⟩ := hw
  rintro x c bs rfl hbs hc
  obtain ⟨hend, hsign⟩ := h (v ++ x) c bs (by simp) hbs hc
  refine ⟨hend, fun hs => ?_⟩
  rintro ⟨y, d, m, rfl, hd, hm⟩
  exact hsign hs ⟨v ++ y, d, m, by simp, hd, hm⟩

theorem endsOpen_concat (hblank : isBlank c = false)
    (hc : isNamePart c = false ∧ c ≠ '.' ∧ c ≠ ')') (hsign : IsSign c → ¬EndsInMark x) :
    EndsOpen (x ++ [c]) := by
  intro y d bs h hbs _
  cases List.eq_nil_or_concat bs with
  | inl hnil =>
    subst bs
    obtain ⟨rfl, hd⟩ := List.append_inj' h rfl
    obtain rfl := List.singleton_inj.1 hd
    exact ⟨hc, hsign⟩
  | inr hlast =>
    obtain ⟨cs, b, rfl⟩ := hlast
    have hend : x ++ [c] = (y ++ d :: cs) ++ [b] := by simpa using h
    obtain ⟨-, hb⟩ := List.append_inj' hend rfl
    obtain rfl := List.singleton_inj.1 hb
    rw [hbs c (by simp)] at hblank
    cases hblank

/-- A token that reaches from one text into the next holds the characters at the seam. -/
theorem cuts_of_neighbours
    (h : ∀ x y a b z, u = x ++ y ++ [a] → b ∈ v.head? → ¬IsUnit (y ++ a :: b :: z)) : Cuts u v := by
  rintro y z ⟨x, rfl⟩ ⟨v, rfl⟩ hy hz hunit
  obtain ⟨y, a, rfl⟩ := (List.eq_nil_or_concat' y).resolve_left hy
  obtain ⟨b, z, rfl⟩ := List.exists_cons_of_ne_nil hz
  rw [List.append_assoc, List.singleton_append] at hunit
  exact h x y a b z (List.append_assoc x y [a]).symm rfl hunit

theorem EndsOpen.cuts (hu : EndsOpen u) (hv : ∀ c ∈ v.head?, c ≠ '=' ∧ c ≠ '>') : Cuts u v := by
  refine cuts_of_neighbours fun x y a b z hseam hb hunit => ?_
  have hblank : isBlank a = false := hunit.not_isBlank (by simp)
  obtain ⟨⟨hpart, hpoint, -⟩, hsign⟩ := hu (x ++ y) a [] hseam (by simp) hblank
  rcases hunit.isSymbol_or_isSign hpart hpoint with ⟨k, hk⟩ | ⟨hs, d, m, e, rfl, hm⟩
  · have hall : ∀ e ∈ symbols, ∀ d ∈ e.1.tail, d = '=' ∨ d = '>' := by simp [symbols]
    have hmem : b ∈ (y ++ a :: b :: z).tail := by cases y <;> simp
    obtain ⟨hequal, hgreater⟩ := hv b hb
    exact (hall _ hk b hmem).elim hequal hgreater
  · exact hsign hs ⟨x ++ d, m, e, by simp, hm⟩

theorem cuts_of_operand (hu : ∀ c ∈ u.getLast?, c.isDigit = true ∨ c = '.' ∨ c = ')')
    (hv : ∀ c ∈ v.head?, isNamePart c = false ∧ c ≠ '.') : Cuts u v := by
  refine cuts_of_neighbours fun x y a b z hseam hb hunit => ?_
  obtain ⟨hpart, hpoint⟩ := hv b hb
  have ha := hu a (by rw [hseam]; exact List.getLast?_concat)
  rw [List.append_cons] at hunit
  rcases hunit.isSymbol_or_isSign hpart hpoint with ⟨k, hk⟩ | ⟨-, d, m, e, heq, -, hm⟩
  · have hall : ∀ e ∈ symbols, ∀ d ∈ e.1.dropLast, ¬(d.isDigit = true ∨ d = '.' ∨ d = ')') := by
      simp [symbols]
    have hmem : a ∈ (y ++ [a] ++ b :: z).dropLast := by simp
    exact hall _ hk a hmem ha
  · obtain rfl : a = e := by simpa using congrArg List.getLast? heq
    rcases hm with rfl | rfl <;> revert ha <;> decide

theorem isBlank_of_spells_nil (h : Spells t []) : ∀ c ∈ t, isBlank c = true := by
  generalize hts : ([] : List Token) = ts at h
  induction h with
  | nil => exact fun c hc => nomatch hc
  | blank hc _ ih => exact List.forall_mem_cons.2 ⟨hc, ih hts⟩
  | token _ _ => cases hts

/-- After which tokens an operand may come. -/
def Opens (k : Token) : Prop := isOperand k = false ∧ k ≠ .rightParen

/-- An operand may follow the tokens. -/
def OpenAfter (xs : List Token) : Prop := ∀ k ∈ xs.getLast?, Opens k

theorem OpenAfter.of_append_cons (h : OpenAfter (ts ++ k :: xs)) : OpenAfter xs := by
  intro j hj
  apply h
  rw [Option.mem_def] at hj ⊢
  rw [List.getLast?_append, List.getLast?_cons, hj]
  rfl

theorem OpenAfter.tail (h : OpenAfter (k :: xs)) : OpenAfter xs :=
  @OpenAfter.of_append_cons k [] xs h

/-- An operand may follow the tokens of a text with an open end. -/
theorem EndsOpen.openAfter (hu : EndsOpen u) (h : Spells u ts) : OpenAfter ts := by
  induction h with
  | nil => exact fun k hk => nomatch hk
  | @blank c t ts _ _ ih => exact ih (hu.suffix (List.suffix_cons c t))
  | @token w t k ts hw h ih =>
    cases ts with
    | cons j ts => exact ih (hu.suffix (List.suffix_append w t))
    | nil =>
      intro j hj
      obtain rfl := Option.some.inj hj
      have hne := hw.isUnit.ne_nil
      have hsplit := List.dropLast_concat_getLast hne
      generalize w.dropLast = x, w.getLast hne = c at hsplit
      subst w
      have hblank : isBlank c = false := hw.isUnit.not_isBlank (by simp)
      obtain ⟨⟨hpart, hpoint, hparen⟩, hsign⟩ := hu x c t (by simp) (isBlank_of_spells_nil h) hblank
      cases hw with
      | symbol _ hk =>
        have hall : ∀ e ∈ symbols, isOperand e.2 = false ∧ (e.2 = .rightParen → e.1 = [')']) := by
          decide
        refine ⟨(hall _ hk).1, fun hright => hparen ?_⟩
        simpa using congrArg List.getLast? ((hall _ hk).2 hright)
      | number hlongest _ =>
        obtain ⟨hs, hmark⟩ := hlongest.1.isSign hpart hpoint
        exact absurd hmark (hsign hs)
      | name hlongest =>
        rw [hlongest.1.isNamePart (by simp)] at hpart
        cases hpart

end Spreadsheet.Expression
