import Spreadsheet.Proofs.Formula.Arithmetic

/-!
Arithmetic that is a side of a comparison. Its value by itself is that of the text that its
references leave in it, even where the whole of it is one reference. As an argument, where a number
alone and a reference alone are read in ways of their own, it has the same value.
-/
namespace Spreadsheet.Formula

open Expression (Derives Spells isRelation)
open Text (trim)

variable {t : Text} {v : Value} {vs : List Value} {ms : List (Mark Value)} {ps : List Piece}

/-- Numbers, cell references, arithmetic operators and parentheses that form an expression in which
each reference is one operand. -/
structure IsArithmetic (t : Text) (vs : List Value) (ms : List (Mark Value)) : Prop where
  marked : Marked (scan t) vs ms
  tokens : ∀ k, .token k ∈ ms → k.isArithmetic = true
  grammar : ∃ n e, Derives n (.chain .comparison) (ms.map Mark.atom) e

/-- The value is a finite number. -/
def IsNumber (v : Value) : Prop := ∃ y : Float, v = .number y ∧ y.isFinite = true

section Form

theorem literal?_eq_none (h : '"' ∉ t) : Text.literal? t = none := by
  cases hs : Text.literal? t with
  | none => rfl
  | some s =>
    have hmem : '"' ∈ trim t := by
      rw [Text.bareLiteral?_eq_some_iff.1 hs]
      exact List.mem_cons_self
    exact absurd ((Text.isInfix_trim t).subset hmem) h

theorem readRange?_eq_none (h : ':' ∉ t) : Range.read? t = none := by
  cases hr : Range.read? t with
  | none => rfl
  | some r =>
    obtain ⟨⟨start, stop⟩, hcut, -⟩ := Option.bind_eq_some_iff.1 hr
    obtain ⟨rfl, -⟩ := Text.cutAt?_eq_some_iff.1 hcut
    exact absurd (by simp) h

variable (h : IsArithmetic t vs ms)
include h

theorem IsArithmetic.written : Written t (ms.map Mark.atom) := by
  have hwritten := h.marked.written (fun s r => read?_of_mem_scanFrom) h.tokens
  rwa [join_scan] at hwritten

theorem IsArithmetic.closed : Text.Closed t := by
  obtain ⟨n, e, hd⟩ := h.grammar
  exact h.written.closed hd.balanced

theorem IsArithmetic.isRelation_eq_false : ∀ c ∈ t, isRelation c = false := fun c hc =>
  isRelation_of_isForeign (h.written.chars c hc)

end Form

section Filled

theorem mem_filled {c : Char} (hc : c ∈ filled literal ps vs) :
    c ∈ join ps ∨ ∃ v ∈ vs, c ∈ literal v := by
  have hjoin (p : Piece) (ps : List Piece) : join (p :: ps) = p.text ++ join ps := rfl
  induction ps generalizing vs with
  | nil => simp [filled] at hc
  | cons p ps ih =>
    rw [hjoin, List.mem_append]
    cases p with
    | plain d =>
      rcases List.mem_cons.1 hc with rfl | hc
      · exact .inl (.inl List.mem_cons_self)
      · exact (ih hc).imp_left .inr
    | token s k =>
      cases vs with
      | nil => simp [filled] at hc
      | cons v vs =>
        rcases List.mem_append.1 hc with hc | hc
        · exact .inr ⟨v, List.mem_cons_self, hc⟩
        · refine (ih hc).imp .inr ?_
          rintro ⟨v', hv', hc'⟩
          exact ⟨v', List.mem_cons_of_mem v hv', hc'⟩

theorem isRelation_of_isNumeralChar {c : Char} (h : isNumeralChar c = true) :
    isRelation c = false := by
  by_contra hrel
  simp only [isRelation, Bool.not_eq_false, Bool.or_eq_true, beq_iff_eq] at hrel
  rcases hrel with ((rfl | rfl) | rfl) | rfl <;> cases h

theorem isRelation_of_mem_literal {c : Char} (hc : c ∈ literal v) : isRelation c = false := by
  cases v with
  | boolean b =>
    have hall : ∀ b, (booleanLiteral b).all (!isRelation ·) = true := by decide
    simpa using List.all_eq_true.1 (hall b) c hc
  | _ =>
    refine isRelation_of_isNumeralChar (isNumeralChar_of_mem_numberLiteral ?_ hc)
    exact isFinite_getD_number? _

variable (h : IsArithmetic t vs ms)
include h

theorem IsArithmetic.spells_filled :
    Spells (filled literal (scan t) vs) (ms.flatMap (Mark.phrase literal)) := by
  obtain ⟨n, e, hd⟩ := h.grammar
  exact h.marked.spells_filled hd

theorem IsArithmetic.isRelation_filled :
    ∀ c ∈ filled literal (scan t) vs, isRelation c = false := by
  intro c hc
  rcases mem_filled hc with hc | ⟨v, -, hc⟩
  · rw [join_scan] at hc
    exact h.isRelation_eq_false c hc
  · exact isRelation_of_mem_literal hc

/-- With numbers for its references, arithmetic is an expression whose value is a number. -/
theorem IsArithmetic.exists_derives (hvs : ∀ v ∈ vs, IsNumber v) : ∃ n e y,
    Derives n (.chain .comparison) (ms.flatMap (Mark.phrase literal)) e ∧ e.value = .number y := by
  obtain ⟨n, e₀, hd₀⟩ := h.grammar
  obtain ⟨e, hd⟩ := exists_derives_values hd₀
  obtain ⟨e', hd', he⟩ := exists_derives_filled hd
  have htokens : ∀ k ∈ ms.map Mark.operand, k.isArithmetic = true := by
    intro k hk
    obtain ⟨u, hu, rfl⟩ := List.mem_map.1 hk
    cases u with
    | token k => exact h.tokens k hu
    | value v =>
      obtain ⟨y, rfl, -⟩ := hvs v (h.marked.mem hu)
      rfl
  obtain ⟨y, hy⟩ := hd.exists_number htokens
  exact ⟨n + 2, e', y, hd', he.symm.trans hy⟩

theorem IsArithmetic.ne_nil : t ≠ [] := by
  rintro rfl
  obtain ⟨n, e₀, hd₀⟩ := h.grammar
  obtain ⟨e, hd⟩ := exists_derives_values hd₀
  obtain ⟨e', hd', -⟩ := exists_derives_filled hd
  obtain ⟨k, ks, hcons, -⟩ := hd'.exists_cons
  have hspells := h.spells_filled
  have hscan : scan [] = [] := by rw [scan, scanFrom]
  rw [hscan] at hspells
  rw [hspells.eq_nil] at hcons
  cases hcons

end Filled

section Numeral

variable {w s : Text}

/-- A number reaches up to a letter of a reference only as an operand. -/
theorem exists_endsNumber_of_readFloat? {x : Float} {c : Char} {rest : Text}
    (h : Number.readFloat? (w ++ c :: rest) = some x) (hc : c = '$' ∨ c.isUpper = true) :
    ∃ d ∈ w.getLast?, Expression.EndsNumber d := by
  obtain ⟨sign, numeral, y, heq, hnumeral, -, -, hsign⟩ :=
    Expression.exists_numeral_of_readFloat? h
  have hsign : ∀ d ∈ sign, d = '+' ∨ d = '-' := by
    rcases hsign with ⟨rfl | rfl, -⟩ | ⟨rfl, -⟩ <;> simp
  obtain ⟨z, rfl, rfl⟩ : ∃ z, w = sign ++ z ∧ numeral = z ++ c :: rest := by
    rcases List.append_eq_append_iff.1 heq with ⟨z, rfl, hrest⟩ | ⟨z, rfl, rfl⟩
    · cases z with
      | nil => exact ⟨[], by simp, hrest.symm⟩
      | cons d z =>
        obtain ⟨rfl, -⟩ := List.cons.inj hrest
        rcases hsign c (by simp) with rfl | rfl <;> simp at hc
    · exact ⟨z, rfl, rfl⟩
  have hmark : Expression.IsMark c := by
    rcases hnumeral.mem (c := c) (by simp) with hdigit | rfl | hmark | rfl | rfl
    · rcases hc with rfl | hup
      · cases hdigit
      · rw [Text.isUpper_of_isDigit hdigit] at hup
        cases hup
    · simp at hc
    · exact hmark
    all_goals simp at hc
  obtain ⟨d, hd, hends⟩ := hnumeral.before_mark hmark
  refine ⟨d, ?_, hends⟩
  rw [Option.mem_def, List.getLast?_append, Option.mem_def.1 hd, Option.some_or]

theorem parse?_eq_none {c : Char} (hc : c ∈ trim t) (hrel : isRelation c = true) :
    Number.parse? t = none := by
  cases h : Number.parse? t with
  | none => rfl
  | some z =>
    obtain ⟨hread, -⟩ := Option.filter_eq_some_iff.1 h
    obtain ⟨sign, numeral, y, heq, hnumeral, -, -, hsign⟩ :=
      Expression.exists_numeral_of_readFloat? hread
    rw [heq] at hc
    rcases List.mem_append.1 hc with hc | hc
    · rcases hsign with ⟨rfl | rfl, -⟩ | ⟨rfl, -⟩
      · cases hc
      all_goals
        rw [List.mem_singleton.1 hc] at hrel
        cases hrel
    · rw [isRelation_of_isForeign (plain_of_isNumeral hnumeral hc).1] at hrel
      cases hrel

theorem isNumeralChar_of_mem_display {y : Float} (hy : y.isFinite = true) {c : Char}
    (hc : c ∈ Number.display y) : isNumeralChar c = true := by
  have hdigits {n : Nat} (hc : c ∈ Number.natText n) : isNumeralChar c = true :=
    isNumeralChar_of_isDigit (Number.isDigit_of_mem_natText hc)
  unfold Number.display Number.intText at hc
  split at hc
  · split at hc
    · rcases List.mem_cons.1 hc with rfl | hc
      · rfl
      · exact hdigits hc
    · exact hdigits hc
  · exact isNumeralChar_of_mem_write hy hc

/-- Arithmetic that is one number holds no reference: a point before it would be a number. -/
theorem IsArithmetic.eq_nil_of_readFloat? (h : IsArithmetic t vs ms) {x : Float}
    (hx : Number.readFloat? t = some x) :
    vs = [] ∧ cells (scan t) = [] ∧ filled literal (scan t) vs = t := by
  have hjoin := join_scan t
  have hreference {s : Text} {r : Reference} (hs : .token s (.cell r) ∈ scan t) :
      IsReferenceText s := splitReference?_of_read? (read?_of_mem_scanFrom hs)
  obtain ⟨hmarked, -, n, e, hd⟩ := h
  generalize scan t = ps at hjoin hreference hmarked
  cases hmarked with
  | @run w ts hw =>
    rw [join_ofText] at hjoin
    exact ⟨rfl, cells_ofText w, (filled_ofText w []).trans hjoin⟩
  | @cell w s r ts ps v vs us hw _ =>
    exfalso
    have hs : IsReferenceText s := hreference (r := r) (by simp)
    obtain ⟨c, rest, rfl, hc⟩ := exists_cons_of_isReferenceText hs
    rw [join_ofText_append] at hjoin
    have hnumber : Number.readFloat? (w ++ c :: (rest ++ join ps)) = some x := by
      rw [← hx, ← hjoin]
      rfl
    obtain ⟨d, hlast, hends⟩ := exists_endsNumber_of_readFloat? hnumber hc
    obtain ⟨k, hk, hoperand⟩ := hw.exists_operand hlast hends
    have hchain := hd.isChain
    rw [List.map_append, map_atom_token, List.map_cons] at hchain
    rcases (List.isChain_append.1 hchain).2.2 k hk _ rfl with hno | hno
    · rw [hoperand] at hno
      cases hno
    · cases hno

end Numeral

section Value

variable {x : Context} {p q : Progress}

theorem evaluate_literal {y : Float} (hy : y.isFinite = true) :
    Expression.evaluate (literal (.number y)) = .ok (.number y) := by
  have hnumber : operand (.number y) = .number y := by simp [operand, Value.number?, hy]
  obtain ⟨ts, hts⟩ := standsIn_literal (.number y)
  have hspells := hts.spells (r := []) (by simp) .nil
  rw [List.append_nil, List.append_nil] at hspells
  obtain ⟨e, hd, he⟩ : ∃ e, Derives 2 .signed ts e ∧ e.value = .number y := by
    rcases hts.standsFor with rfl | ⟨z, e, hz, hd, he⟩
    · rw [hnumber]
      exact ⟨.number y, .unsigned (.number y), by rw [Expression.value]⟩
    · rw [hnumber] at hz
      obtain rfl := Expression.Token.number.inj hz
      exact ⟨e, hd, by rw [← he, Expression.value]⟩
  have hparse := Expression.parse_of_derives hspells
    (.single (.single (.single (.base (hd.mono (by decide))))))
  unfold Expression.evaluate
  rw [hparse]
  simp [he, Expression.Scalar.isFinite, hy]

theorem IsArithmetic.answer_substitutePieces (h : IsArithmetic t vs ms)
    (hcells : x.cellValues (cells (scan t)) p = (vs, q)) (hvs : ∀ v ∈ vs, IsNumber v) :
    x.answer (substitutePieces (scan t)) p = (.ok (filled literal (scan t) vs), q) := by
  have hvalues : ∀ v ∈ vs, v.isError = false := by
    intro v hv
    obtain ⟨y, rfl, -⟩ := hvs v hv
    rfl
  have hsubstituted :=
    Formula.answer_substitutePieces h.marked (congrArg Prod.fst hcells) hvalues
  rwa [hcells] at hsubstituted

section Answer

variable (h : IsArithmetic (trim t) vs ms)
  (hcells : x.cellValues (cells (scan (trim t))) p = (vs, q)) (hvs : ∀ v ∈ vs, IsNumber v)
include h

theorem IsArithmetic.value_of_reference {r : Reference} (href : Reference.read? (trim t) = some r)
    (o : Options) : value o t = .computed r.cell .done := by
  rw [value, valueWith_eq_plainValue (callFree_of_chain h.written.chain).whole h.ne_nil]
  unfold plainValue
  rw [href]

theorem IsArithmetic.composite (href : Reference.read? (trim t) = none) : Composite (trim t) :=
  ⟨href, literal?_eq_none (h.written.not_mem (by rfl)),
    readRange?_eq_none (h.written.not_mem (by rfl))⟩

include hcells hvs

theorem IsArithmetic.answer_value : x.answer (value x.options t) p =
    (ofScalar (Expression.evaluate (filled literal (scan (trim t)) vs)), q) := by
  cases href : Reference.read? (trim t) with
  | none =>
    have hcalls := callFree_of_chain h.written.chain
    rw [value, valueWith_of_callFree hcalls (h.composite href) h.ne_nil]
    refine (Context.answer_bind_of_ok (h.answer_substitutePieces hcells hvs)).trans ?_
    cases ofScalar (Expression.evaluate (filled literal (scan (trim t)) vs)) <;> rfl
  | some r =>
    rw [h.value_of_reference href]
    rw [scan_of_reference href] at hcells ⊢
    obtain ⟨rfl, rfl⟩ := Prod.mk.inj hcells
    obtain ⟨y, hy, hfinite⟩ := hvs _ List.mem_cons_self
    have hv : (x.cellValue r.cell p).1 = .number y := hy
    have hfilled : filled literal [.token (trim t) (.cell r)] [.number y] = literal (.number y) :=
      List.append_nil _
    rw [x.answer_computed, hv, hy, hfilled, evaluate_literal hfinite]
    rfl

/-- As an argument, arithmetic has the number that is its value by itself. -/
theorem IsArithmetic.answer_argument {eval : Text → Query Value} {y : Float}
    (hy : Expression.evaluate (filled literal (scan (trim t)) vs) = .ok (.number y))
    (heval : eval (trim t) = value x.options (trim t)) :
    x.answer ((Argument.read t).value eval) p = (.ok (.number y), q) := by
  have htrim : trim (trim t) = trim t := Text.trim_of_trimmed (Text.trimmed_trim t)
  have hvalue := h.answer_value hcells hvs
  rw [hy] at hvalue
  have hliteral := literal?_eq_none (h.written.not_mem (by rfl))
  have hrange := readRange?_eq_none (h.written.not_mem (by rfl))
  unfold Argument.value Argument.read
  dsimp only
  cases href : Reference.read? (trim t) with
  | some r =>
    have hkind : Argument.kindOf (trim t) = .reference r := by
      unfold Argument.kindOf
      rw [if_neg h.ne_nil, hrange, href]
    rw [hkind]
    rw [h.value_of_reference href] at hvalue
    exact hvalue
  | none =>
    cases hz : Number.parse? (trim t) with
    | some z =>
      have hkind : Argument.kindOf (trim t) = .number z := by
        unfold Argument.kindOf
        rw [if_neg h.ne_nil, hrange, href, hliteral, hz]
      rw [hkind]
      obtain ⟨hread, hfinite⟩ := Option.filter_eq_some_iff.1 hz
      rw [htrim] at hread
      obtain ⟨rfl, hnone, hfilled⟩ := h.eq_nil_of_readFloat? hread
      obtain ⟨e, hparse, he⟩ := Expression.exists_parse_of_readFloat? hread
      rw [hnone] at hcells
      obtain ⟨-, rfl⟩ := Prod.mk.inj hcells
      rw [hfilled, Expression.evaluate, hparse] at hy
      simp only [he, Expression.Scalar.isFinite, hfinite, if_true] at hy
      obtain rfl := Expression.Scalar.number.inj (Except.ok.inj hy)
      rfl
    | none =>
      have hkind : Argument.kindOf (trim t) = .formula := by
        unfold Argument.kindOf
        rw [if_neg h.ne_nil, hrange, href, hliteral, hz]
      rw [hkind]
      have hinner := x.answer_attempt (eval (trim t)) p
      rw [← htrim] at h hcells hy
      rw [heval, h.answer_value hcells hvs, hy] at hinner
      refine (Context.answer_bind_of_ok (heval ▸ hinner)).trans ?_
      rfl

end Answer

end Value

end Spreadsheet.Formula
