import Spreadsheet.Proofs.Expression.Comparison
import Spreadsheet.Proofs.Expression.Decimal
import Spreadsheet.Proofs.Formula.Boundary
import Spreadsheet.Proofs.Formula.Substitution
import Spreadsheet.Proofs.Text.Closed

/-!
Formula text of numbers, cell references, arithmetic operators and parentheses. Its characters and
the way its parentheses nest follow from its tokens. Such a text calls no function, closes what it
opens, and can be neither an argument list nor a comparison.
-/
namespace Spreadsheet.Expression

variable {n : Nat} {c : Category} {ts : List Token} {e : Expression}

theorem depth_eq_zero (h : ∀ k ∈ ts, weight k = 0) : depth ts = 0 := by
  induction ts with
  | nil => rfl
  | cons k ts ih =>
    obtain ⟨hk, hts⟩ := List.forall_mem_cons.1 h
    rw [depth_cons, hk, ih hts, Int.add_zero]

/-- A number, an arithmetic operator or a parenthesis. -/
def Token.isArithmetic : Token → Bool
  | .number _ | .plus | .minus | .star | .slash | .caret | .leftParen | .rightParen => true
  | _ => false

theorem Chain.Operator.exists_arithmetic {c : Chain} {k : Token} {op : BinaryOperator}
    (hk : c.Operator k op) (h : k.isArithmetic = true) : ∃ op', op = .arithmetic op' := by
  cases hk with
  | comparison op => cases h
  | _ => exact ⟨_, rfl⟩

theorem Derives.exists_number (h : Derives n c ts e) (hts : ∀ k ∈ ts, k.isArithmetic = true) :
    ∃ y, e.value = .number y := by
  induction h with
  | single _ ih => exact ih hts
  | @step n c ts us k op a b _ hk _ _ _ =>
    obtain ⟨op, rfl⟩ := hk.exists_arithmetic (hts k (by simp))
    exact ⟨_, by rw [value]; rfl⟩
  | base _ ih => exact ih hts
  | power _ _ _ _ => exact ⟨_, by rw [value]; rfl⟩
  | unsigned _ ih => exact ih hts
  | sign _ _ _ => exact ⟨_, by rw [value]⟩
  | number x => exact ⟨x, by rw [value]⟩
  | constant _ => cases hts _ List.mem_cons_self
  | parens _ ih => exact ih fun k hk => hts k (by simp [hk])
  | call _ _ _ _ => cases hts _ List.mem_cons_self

end Spreadsheet.Expression

namespace Spreadsheet.Formula

open Expression (Derives Lexeme Spells isRelation)
open Text (Closed isBlank)

variable {t w a b : Text} {c d : Char} {ts us : List Expression.Token} {k : Expression.Token}

/-- A character that has a meaning in formulas, but none in arithmetic. -/
def isForeign (c : Char) : Bool := isRelation c || c == ',' || c == '"' || c == ':'

theorem isRelation_of_isForeign (h : isForeign c = false) : isRelation c = false := by
  simp only [isForeign, Bool.or_eq_false_iff] at h
  exact h.1.1.1

/-- No name of a function ends with the one and is called with the other. -/
def NotCall (c d : Char) : Prop := d = '(' → c.isAlpha = false

/-- The text has the characters of arithmetic, and its parentheses nest as those of the tokens. -/
structure Written (t : Text) (ts : List Expression.Token) : Prop where
  chars : ∀ c ∈ t, isForeign c = false
  chain : t.IsChain NotCall
  last : ∀ c ∈ t.getLast?, c.isAlpha = false
  depth_eq : Text.depth t = Expression.depth ts
  depth : ∀ a b, t = a ++ b → ∃ xs ys, ts = xs ++ ys ∧ Text.depth a = Expression.depth xs

theorem Written.append (ha : Written a ts) (hb : Written b us) : Written (a ++ b) (ts ++ us) where
  chars := by
    intro c hc
    exact (List.mem_append.1 hc).elim (ha.chars c) (hb.chars c)
  chain := by
    refine List.isChain_append.2 ⟨ha.chain, hb.chain, fun c hc d _ _ => ha.last c hc⟩
  last := by
    intro c hc
    rcases Expression.mem_getLast?_append hc with hc | ⟨-, hc⟩
    · exact hb.last c hc
    · exact ha.last c hc
  depth_eq := by rw [Text.depth_append, ha.depth_eq, hb.depth_eq, Expression.depth_append]
  depth := by
    intro x y h
    rcases List.append_eq_append_iff.1 h with ⟨z, rfl, hrest⟩ | ⟨z, rfl, -⟩
    · obtain ⟨xs, ys, rfl, hdepth⟩ := hb.depth z y hrest
      refine ⟨ts ++ xs, ys, by rw [List.append_assoc], ?_⟩
      rw [Text.depth_append, ha.depth_eq, hdepth, Expression.depth_append]
    · obtain ⟨xs, ys, rfl, hdepth⟩ := ha.depth x z rfl
      exact ⟨xs, ys ++ us, by rw [List.append_assoc], hdepth⟩

/-- A text without parentheses that does not end with a letter. -/
theorem written_of_weight (hchars : ∀ c ∈ t, isForeign c = false ∧ Text.weight c = 0)
    (hlast : ∀ c ∈ t.getLast?, c.isAlpha = false) (hts : ∀ k ∈ ts, Expression.weight k = 0) :
    Written t ts where
  chars := fun c hc => (hchars c hc).1
  chain := by
    refine List.Pairwise.isChain (List.pairwise_of_forall_mem_list fun c _ d hd h => ?_)
    rw [h] at hd
    cases (hchars _ hd).2
  last := hlast
  depth_eq := by
    rw [Text.depth_eq_zero fun c hc => (hchars c hc).2, Expression.depth_eq_zero hts]
  depth := by
    rintro a b rfl
    refine ⟨[], ts, rfl, Text.depth_eq_zero fun c hc => ?_⟩
    exact (hchars c (List.mem_append_left b hc)).2

/-- The characters that are foreign to arithmetic, and parentheses. -/
def marks : List Char := ['<', '>', '=', '!', ',', '"', ':', '(', ')']

theorem plain_of_not_mem_marks (h : c ∉ marks) : isForeign c = false ∧ Text.weight c = 0 := by
  simp only [marks, List.mem_cons, List.not_mem_nil, or_false, not_or] at h
  simp [isForeign, isRelation, Text.weight, h]

theorem plain_of_class {p : Char → Bool} (hp : marks.all (!p ·) = true) (h : p c = true) :
    isForeign c = false ∧ Text.weight c = 0 := by
  refine plain_of_not_mem_marks fun hc => ?_
  have hno := List.all_eq_true.1 hp c hc
  rw [h] at hno
  cases hno

theorem plain_of_isRefChar (h : isRefChar c = true) : isForeign c = false ∧ Text.weight c = 0 :=
  plain_of_class (by decide) h

theorem plain_of_isBlank (h : isBlank c = true) : isForeign c = false ∧ Text.weight c = 0 :=
  plain_of_class (by decide) h

theorem isAlpha_of_isWord (h : Text.isWord c = false) : c.isAlpha = false := by
  refine Bool.eq_false_iff.2 fun halpha => ?_
  rw [Text.isWord_of_isAlphanum (by simp [Char.isAlphanum, halpha])] at h
  cases h

theorem isAlpha_of_isBlank (h : isBlank c = true) : c.isAlpha = false :=
  isAlpha_of_isWord (Text.isWord_of_isBlank h)

theorem plain_of_isNumeral (h : Expression.IsNumeral w) (hc : c ∈ w) :
    isForeign c = false ∧ Text.weight c = 0 := by
  rcases h.mem hc with hdigit | rfl | hmark | rfl | rfl
  · exact plain_of_class (by decide) hdigit
  · decide
  · rcases hmark with rfl | rfl <;> decide
  all_goals decide

theorem isAlpha_of_isDigit (h : c.isDigit = true) : c.isAlpha = false := by
  refine Bool.eq_false_iff.2 fun halpha => ?_
  have hstart : Expression.Token.isNameStart c = true := by
    simp [Expression.Token.isNameStart, halpha]
  rw [Expression.isDigit_of_isNameStart hstart] at h
  cases h

theorem isAlpha_of_endsNumber (h : Expression.EndsNumber c) : c.isAlpha = false := by
  rcases h with h | rfl
  · exact isAlpha_of_isDigit h
  · rfl

theorem written_singleton (hforeign : isForeign c = false) (halpha : c.isAlpha = false)
    (hweight : Text.weight c = Expression.weight k) : Written [c] [k] where
  chars := by simpa using hforeign
  chain := .singleton c
  last := by simpa using halpha
  depth_eq := by simp [hweight]
  depth := by
    intro a b h
    rcases List.append_eq_singleton_iff.1 h.symm with ⟨rfl, -⟩ | ⟨rfl, -⟩
    · exact ⟨[], [k], rfl, rfl⟩
    · exact ⟨[k], [], rfl, by simp [hweight]⟩

theorem written_lexeme (h : Lexeme w t k) (hk : k.isArithmetic = true) : Written w [k] := by
  cases h with
  | name _ => cases hk
  | number hw hx =>
    have hends := (Lexeme.number hw hx).endsNumber
    refine written_of_weight (fun c hc => plain_of_isNumeral hw.1 hc) ?_ ?_
    · exact fun c hc => isAlpha_of_endsNumber (hends c hc)
    · simp [Expression.weight]
  | symbol _ hsymbol =>
    have hall : ∀ p ∈ Expression.symbols, p.2.isArithmetic = true → ∃ c, p.1 = [c] ∧
        isForeign c = false ∧ c.isAlpha = false ∧ Text.weight c = Expression.weight p.2 := by
      simp [Expression.symbols, Expression.Token.isArithmetic, isForeign, isRelation, Text.weight,
        Expression.weight]
    obtain ⟨c, rfl, hforeign, halpha, hweight⟩ := hall _ hsymbol hk
    exact written_singleton hforeign halpha hweight

theorem written_of_spells (h : Spells t ts) (hts : ∀ k ∈ ts, k.isArithmetic = true) :
    Written t ts := by
  induction h with
  | nil => exact written_of_weight nofun nofun nofun
  | @blank c t ts hc _ ih =>
    have hblank : Written [c] [] :=
      written_of_weight (by simpa using plain_of_isBlank hc) (by simpa using isAlpha_of_isBlank hc)
        nofun
    exact hblank.append (ih hts)
  | @token w t k ts hw _ ih =>
    obtain ⟨hk, hts⟩ := List.forall_mem_cons.1 hts
    exact (written_lexeme hw hk).append (ih hts)

section Pieces

variable {s : Text} {r : Reference} {before : Option Char} {q : Bool} {ps : List Piece}
  {vs : List Value} {ms : List (Mark Value)}

theorem written_reference (h : Reference.read? s = some r) : Written s [.number 0] := by
  have hreference : IsReferenceText s := splitReference?_of_read? h
  obtain ⟨d, hd, hdigit⟩ := hreference.getLast?
  refine written_of_weight
    (fun c hc => plain_of_isRefChar (isRefChar_of_splitReference? hreference c hc)) ?_
    (by simp [Expression.weight])
  intro c hc
  obtain rfl := Option.some.inj (hd.symm.trans hc)
  exact isAlpha_of_isDigit hdigit

theorem Marked.written (h : Marked ps vs ms)
    (hps : ∀ s r, .token s (.cell r) ∈ ps → Reference.read? s = some r)
    (hms : ∀ k, .token k ∈ ms → k.isArithmetic = true) :
    Written (join ps) (ms.map Mark.atom) := by
  induction h with
  | run h =>
    rw [join_ofText, map_atom_token]
    exact written_of_spells h fun k hk => hms k (List.mem_map_of_mem hk)
  | @cell w s r ts ps v vs us h _ ih =>
    have hw := written_of_spells h fun k hk =>
      hms k (List.mem_append_left _ (List.mem_map_of_mem hk))
    have hs := written_reference (hps s r (by simp))
    have hrest := ih (fun s r hmem => hps s r (by simp [hmem])) fun k hk => hms k (by simp [hk])
    rw [join_ofText_append, List.map_append, map_atom_token, List.map_cons]
    exact hw.append (hs.append hrest)

end Pieces

section Shape

variable {name inner : Text} {before : Option Char} {q : Bool}

theorem Written.not_mem (h : Written t ts) (hc : isForeign c = true) : c ∉ t := by
  intro hmem
  rw [h.chars c hmem] at hc
  cases hc

/-- Where the parentheses of the tokens match, those of the text do. -/
theorem Written.closed (h : Written t ts) (hts : Expression.Balanced ts) : Closed t where
  quote := h.not_mem (by rfl)
  depth_eq := h.depth_eq.trans hts.depth_eq
  nonneg := by
    intro a b hab
    obtain ⟨xs, ys, hxs, hdepth⟩ := h.depth a b hab
    rw [hdepth]
    exact hts.nonneg xs ys hxs

theorem isAlpha_of_isUpper_toUpper (h : c.toUpper.isUpper = true) : c.isAlpha = true := by
  have halpha : c.isAlpha = (c.isUpper || c.isLower) := rfl
  unfold Char.toUpper at h
  split at h
  · rename_i hlower
    have hlower' : c.isLower = true := by simpa [Char.isLower] using hlower
    simp [halpha, hlower']
  · simp [halpha, h]

theorem exists_isAlpha_of_isKnown (h : LibraryFunction.isKnown name = true) :
    ∃ front c, name = front ++ [c] ∧ c.isAlpha = true := by
  obtain ⟨f, hf⟩ := Option.isSome_iff_exists.1 h
  have hname := List.find?_some hf
  rw [beq_iff_eq] at hname
  have hne : f.name.toList ≠ [] := by cases f <;> decide
  have hupper : f.name.toList.all Char.isUpper = true := by cases f <;> decide
  rw [hname] at hne hupper
  rcases List.eq_nil_or_concat' name with rfl | ⟨front, c, rfl⟩
  · exact absurd rfl hne
  · exact ⟨front, c, rfl, isAlpha_of_isUpper_toUpper (List.all_eq_true.1 hupper _ (by simp))⟩

theorem not_isKnown_of_chain (h : (name ++ '(' :: inner).IsChain NotCall) :
    LibraryFunction.isKnown name = false := by
  refine Bool.eq_false_iff.2 fun hknown => ?_
  obtain ⟨front, c, rfl, hc⟩ := exists_isAlpha_of_isKnown hknown
  rw [List.append_assoc] at h
  have hnot := (List.isChain_append_cons_cons.1 h).2.1 rfl
  rw [hc] at hnot
  cases hnot

theorem plain_of_mem_segmentsFrom (h : t.IsChain NotCall) :
    ∀ s ∈ segmentsFrom LibraryFunction.isKnown before q t, ∃ c, s = .plain c := by
  fun_induction segmentsFrom LibraryFunction.isKnown before q t with
  | case1 => simp
  | case2 before q r ih => exact List.forall_mem_cons.2 ⟨⟨_, rfl⟩, ih h.tail⟩
  | case3 before q c r _ _ ih => exact List.forall_mem_cons.2 ⟨⟨_, rfl⟩, ih h.tail⟩
  | case4 before q c r _ _ _ ih => exact List.forall_mem_cons.2 ⟨⟨_, rfl⟩, ih h.tail⟩
  | case5 before q c r _ _ name inner hname hknown _ =>
    rw [splitName?_append hname] at h
    rw [not_isKnown_of_chain h] at hknown
    cases hknown
  | case6 before q c r _ _ name inner hname hknown _ _ _ _ _ =>
    rw [splitName?_append hname] at h
    rw [not_isKnown_of_chain h] at hknown
    cases hknown
  | case7 before q c r _ _ name inner _ _ ih =>
    exact List.forall_mem_cons.2 ⟨⟨_, rfl⟩, ih h.tail⟩

/-- A text without letters before opening parentheses calls no function. -/
theorem callFree_of_chain (h : t.IsChain NotCall) : CallFree t where
  plain := plain_of_mem_segmentsFrom h
  whole := by
    intro name args hwhole
    obtain ⟨⟨name', r⟩, hcut, hcall⟩ := Option.bind_eq_some_iff.1 hwhole
    obtain ⟨rfl, -⟩ := Text.cutAt?_eq_some_iff.1 hcut
    have hknown := not_isKnown_of_chain h
    dsimp only at hcall
    split at hcall
    · split at hcall
      · obtain ⟨rfl, -⟩ := Prod.mk.inj (Option.some.inj hcall)
        exact hknown
      · cases hcall
    · cases hcall

end Shape

end Spreadsheet.Formula
