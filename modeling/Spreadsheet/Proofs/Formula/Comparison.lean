import Spreadsheet.Proofs.Formula.Side
import Spreadsheet.Proofs.Library.Choice

/-!
A choice by a comparison of arithmetic against the value of the comparison itself. The one cuts the
text at the sign and evaluates the sides as arguments, the other reads the whole text as an
expression. They agree as long as neither side is an infinity or no number, for every sign but the
doubled equals sign: a choice cuts it in two and compares with a text.
-/
namespace Spreadsheet.Formula

open Expression (Derives Spells isRelation)
open Text (Closed Trimmed isBlank trim)

variable {t u v g sign left right : Text} {vs ws : List Value} {ms ns : List (Mark Value)}
  {op : Expression.Comparison} {x : Context} {p q r : Progress}

section Seams

theorem substitutePieces_append_pieces (ps qs : List Piece) :
    substitutePieces (ps ++ qs) = substitutePieces ps >>= fun t =>
      substitutePieces qs >>= fun u => .done (t ++ u) := by
  induction ps with
  | nil => exact (Query.bind_done _).symm
  | cons a ps ih =>
    change a.substitute >>= (fun s =>
      substitutePieces (ps ++ qs) >>= fun t => Query.done (s ++ t)) =
      (a.substitute >>= fun s => substitutePieces ps >>= fun t => Query.done (s ++ t)) >>= _
    rw [ih, bind_assoc]
    congr 1
    funext s
    rw [bind_assoc, bind_assoc]
    congr 1
    funext t
    rw [bind_assoc]
    change (substitutePieces qs >>= fun u => Query.done (s ++ (t ++ u))) =
      substitutePieces qs >>= fun u => Query.done (s ++ t ++ u)
    simp only [List.append_assoc]

/-- A character of a comparison sign, or a blank beside it, touches no token and opens nothing. -/
theorem edge_of_sign {c : Char} (h : isBlank c = true ∨ isRelation c = true) :
    Text.isWord c = false ∧ c ∉ ['"', '(', ')', ',', ':', '$'] := by
  rcases h with h | h
  · refine ⟨Text.isWord_of_isBlank h, fun hc => ?_⟩
    simp only [List.mem_cons, List.not_mem_nil, or_false] at hc
    rcases hc with rfl | rfl | rfl | rfl | rfl | rfl <;> cases h
  · simp only [isRelation, Bool.or_eq_true, beq_iff_eq] at h
    rcases h with ((rfl | rfl) | rfl) | rfl <;> decide

theorem not_isRefChar_of_sign {c : Char} (h : isBlank c = true ∨ isRelation c = true) :
    isRefChar c = false := by
  obtain ⟨hword, hmarks⟩ := edge_of_sign h
  refine isRefChar_of_isWord hword ?_
  rintro rfl
  simp at hmarks

theorem closesToken_of_sign {c : Char} (h : isBlank c = true ∨ isRelation c = true) :
    closesToken (some c) = true := by
  obtain ⟨hword, hmarks⟩ := edge_of_sign h
  simp only [List.mem_cons, List.not_mem_nil, or_false, not_or] at hmarks
  simp [closesToken, isNameChar_of_isWord hword, hmarks]

theorem opensToken_of_sign {c : Char} (h : isBlank c = true ∨ isRelation c = true) :
    opensToken (some c) = true := by
  obtain ⟨hword, hmarks⟩ := edge_of_sign h
  simp only [List.mem_cons, List.not_mem_nil, or_false, not_or] at hmarks
  simp [opensToken, isNameChar_of_isWord hword, hmarks]

section Texts

variable {us us' : List Expression.Token} (hu : Written u us) (hg : Spells g [.comparison op])
  (hv : Written v us')
include hu hg

theorem scan_comparison : scan (u ++ (g ++ v)) = scan u ++ (Piece.ofText g ++ scan v) := by
  obtain ⟨hne, hsign⟩ := hg.sign
  have hclean : Clean u (g ++ v) := by
    obtain ⟨c, g, rfl⟩ := List.exists_cons_of_ne_nil hne
    have hc := hsign c List.mem_cons_self
    refine .of_head (closesToken_of_sign hc) fun hcolon => ?_
    obtain rfl : c = ':' := Option.some.inj hcolon
    simpa using (edge_of_sign hc).2
  have hquote : '"' ∉ g := fun hmem => by simpa using (edge_of_sign (hsign _ hmem)).2
  have hinert : ∀ y c z, g = y ++ c :: z → splitReference? (c :: z ++ v) = none := by
    rintro y c z rfl
    refine splitReference?_of_head fun e he => ?_
    obtain rfl := Option.some.inj he
    obtain ⟨hup, -, hdollar⟩ := not_isRefChar_iff.1 (not_isRefChar_of_sign (hsign c (by simp)))
    exact ⟨hup, hdollar⟩
  have hopens : opensToken (some (g.getLast hne)) = opensToken none :=
    opensToken_of_sign (hsign _ (List.getLast_mem hne))
  rw [scan, scanFrom_append none false fun _ => hclean,
    Text.quotedAfter_of_not_mem (hu.not_mem (by rfl)), scanFrom_of_inert _ hquote hinert,
    List.getLast?_eq_some_getLast hne, Option.some_or, scanFrom_congr false v hopens]
  rfl

include hv

theorem isChain_comparison : (u ++ (g ++ v)).IsChain NotCall := by
  obtain ⟨hne, hsign⟩ := hg.sign
  have halpha : ∀ c ∈ g, c.isAlpha = false := fun c hc =>
    isAlpha_of_isWord (edge_of_sign (hsign c hc)).1
  have hchain : g.IsChain NotCall :=
    List.Pairwise.isChain (List.pairwise_of_forall_mem_list fun c hc _ _ _ => halpha c hc)
  refine List.isChain_append.2 ⟨hu.chain, List.isChain_append.2 ⟨hchain, hv.chain,
    fun c hc _ _ _ => halpha c (List.mem_of_getLast? hc)⟩, fun c hc _ _ _ => hu.last c hc⟩

theorem composite_comparison : Composite (u ++ (g ++ v)) := by
  obtain ⟨hne, hsign⟩ := hg.sign
  have hno {c : Char} (hc : isForeign c = true) (hmarks : c ∈ ['"', '(', ')', ',', ':', '$']) :
      c ∉ u ++ (g ++ v) := by
    have hcg : c ∉ g := fun hmem => (edge_of_sign (hsign c hmem)).2 hmarks
    simp [hu.not_mem hc, hv.not_mem hc, hcg]
  refine ⟨?_, literal?_eq_none (hno (by rfl) (by simp)),
    readRange?_eq_none (hno (by rfl) (by simp))⟩
  cases h : Reference.read? (u ++ (g ++ v)) with
  | none => rfl
  | some r =>
    obtain ⟨c, g, rfl⟩ := List.exists_cons_of_ne_nil hne
    have href := isRefChar_of_splitReference? (splitReference?_of_read? h) c (by simp)
    rw [not_isRefChar_of_sign (hsign c List.mem_cons_self)] at href
    cases href

/-- The value of a text with a sign in it is that of the text that the references leave in it. -/
theorem answer_value_comparison {a b : Text} (ht : trim t = u ++ (g ++ v))
    (hleft : x.answer (substitutePieces (scan u)) p = (.ok a, q))
    (hright : x.answer (substitutePieces (scan v)) q = (.ok b, r)) :
    x.answer (value x.options t) p = (ofScalar (Expression.evaluate (a ++ (g ++ b))), r) := by
  have hne : trim t ≠ [] := by
    rw [ht]
    exact List.append_ne_nil_of_right_ne_nil _ (List.append_ne_nil_of_left_ne_nil hg.sign.1 _)
  have hsubstituted : x.answer (substituteReferences (trim t)) p = (.ok (a ++ (g ++ b)), r) := by
    rw [ht, substituteReferences, scan_comparison hu hg, substitutePieces_append_pieces,
      substitutePieces_append]
    refine (Context.answer_bind_of_ok hleft).trans ?_
    rw [bind_assoc]
    exact Context.answer_bind_of_ok hright
  have hcalls : CallFree (trim t) := ht ▸ callFree_of_chain (isChain_comparison hu hg hv)
  have hcomposite : Composite (trim t) := ht ▸ composite_comparison hu hg hv
  rw [value, valueWith_of_callFree hcalls hcomposite hne, Context.answer_bind_of_ok hsubstituted]
  cases ofScalar (Expression.evaluate (a ++ (g ++ b))) <;> rfl

end Texts

end Seams

section Agreement

theorem IsArithmetic.evaluate_eq (h : IsArithmetic (trim t) vs ms)
    (hcells : x.cellValues (cells (scan (trim t))) p = (vs, q)) (hvs : ∀ v ∈ vs, IsNumber v)
    (hfinite : (x.answer (value x.options t) p).1 ≠ .error .notFinite) {e : Expression}
    (he : Expression.parse (filled literal (scan (trim t)) vs) = .ok e) : ∃ y,
      e.value = .number y ∧ Expression.evaluate (filled literal (scan (trim t)) vs) = .ok (.number y) ∧
        y.isFinite = true := by
  obtain ⟨n, e', y, hd, hy⟩ := h.exists_derives hvs
  obtain rfl := (Expression.derives_of_parse h.spells_filled he).unique hd
  rw [h.answer_value hcells hvs] at hfinite
  unfold Expression.evaluate at hfinite ⊢
  rw [he] at hfinite ⊢
  dsimp only at hfinite ⊢
  split at hfinite
  · rename_i hf
    rw [if_pos hf, hy]
    rw [hy] at hf
    exact ⟨y, rfl, rfl, hf⟩
  · exact absurd rfl hfinite

theorem isRelation_of_isBlank {c : Char} (h : isBlank c = true) : isRelation c = false :=
  isRelation_of_isForeign (plain_of_isBlank h).1

theorem closed_of_sign (h : ∀ c ∈ t, isBlank c = true ∨ isRelation c = true) :
    Closed t ∧ ',' ∉ t := by
  have hmarks : ∀ c ∈ t, c ∉ ['"', '(', ')', ',', ':', '$'] := fun c hc => (edge_of_sign (h c hc)).2
  refine ⟨Text.closed_of_weight (fun hc => by simpa using hmarks _ hc) fun c hc => ?_,
    fun hc => by simpa using hmarks _ hc⟩
  have hc := hmarks c hc
  simp only [List.mem_cons, List.not_mem_nil, or_false, not_or] at hc
  simp [Text.weight, hc]

theorem IsArithmetic.closed_of_trim (h : IsArithmetic (trim t) vs ms) : Closed t ∧ ',' ∉ t := by
  have hblank {s : Text} (hs : ∀ c ∈ s, isBlank c = true) : Closed s ∧ ',' ∉ s :=
    closed_of_sign fun c hc => .inl (hs c hc)
  obtain ⟨a, b, ht, ha, hb⟩ := Text.exists_trim t
  rw [ht]
  refine ⟨((hblank ha).1.append h.closed).append (hblank hb).1, ?_⟩
  simp only [List.mem_append, not_or]
  exact ⟨⟨(hblank ha).2, h.written.not_mem (by rfl)⟩, (hblank hb).2⟩

theorem exists_gap (left sign right : Text) : ∃ a c d b : Text,
    left ++ (sign ++ right) = a ++ ((trim left ++ ((c ++ (sign ++ d)) ++ trim right)) ++ b) ∧
      (∀ e ∈ a, isBlank e = true) ∧ (∀ e ∈ c, isBlank e = true) ∧ (∀ e ∈ d, isBlank e = true) ∧
        ∀ e ∈ b, isBlank e = true := by
  obtain ⟨a, c, hleft, ha, hc⟩ := Text.exists_trim left
  obtain ⟨d, b, hright, hd, hb⟩ := Text.exists_trim right
  refine ⟨a, c, d, b, ?_, ha, hc, hd, hb⟩
  generalize trim left = u at hleft
  generalize trim right = v at hright
  subst hleft hright
  simp

section Sides

variable {c d : Text} {eval : Text → Query Value}

/-- What begins with a comparison sign is no formula, and as an argument its own text. -/
theorem answer_argument_of_sign (hg : Spells g [.comparison op]) (hv : IsArithmetic v ws ns)
    (ht : trim t = g ++ v) (hcells : x.cellValues (cells (scan v)) p = (ws, q))
    (hws : ∀ w ∈ ws, IsNumber w) (heval : eval (trim t) = value x.options (trim t)) :
    x.answer ((Argument.read t).value eval) p = (.ok (.text (String.ofList (g ++ v))), q) := by
  have hempty : Written [] [] := written_of_weight nofun nofun nofun
  have hnothing : x.answer (substitutePieces (scan [])) p = (.ok [], p) := by
    rw [scan, scanFrom]
    rfl
  have htrim : trim (trim t) = [] ++ (g ++ v) :=
    (Text.trim_of_trimmed (Text.trimmed_trim t)).trans ht
  have hvalue := answer_value_comparison hempty hg hv.written htrim hnothing
    (hv.answer_substitutePieces hcells hws)
  rw [List.nil_append] at hvalue
  obtain ⟨e, he⟩ : ∃ e, Expression.evaluate (g ++ filled literal (scan v) ws) = .error (.parse e) := by
    unfold Expression.evaluate
    cases hparse : Expression.parse (g ++ filled literal (scan v) ws) with
    | error e => exact ⟨e, rfl⟩
    | ok e =>
      have hfail := Expression.parse_sign_ne_ok (e := e) hg hv.spells_filled hv.isRelation_filled
      exact absurd hparse hfail
  have hkind : Argument.kindOf (trim t) = .formula := by
    obtain ⟨c, hc, hrel⟩ := hg.exists_isRelation List.mem_cons_self
    obtain ⟨href, hliteral, hrange⟩ := composite_comparison hempty hg hv.written
    have hnumber : Number.parse? (trim t) = none := by
      refine parse?_eq_none ?_ hrel
      rw [htrim]
      exact List.mem_append_left v hc
    have hne : trim t ≠ [] := by
      rw [ht]
      exact List.append_ne_nil_of_left_ne_nil hg.sign.1 _
    rw [List.nil_append, ← ht] at href hliteral hrange
    unfold Argument.kindOf
    rw [if_neg hne, hrange, href, hliteral, hnumber]
  have hattempt := x.answer_attempt (eval (trim t)) p
  rw [heval, hvalue, he, ← heval] at hattempt
  unfold Argument.value Argument.read
  dsimp only
  rw [hkind]
  refine (Context.answer_bind_of_ok hattempt).trans ?_
  rw [ht]
  rfl

/-- A finite number is compared with a text that holds a comparison sign as two different texts. -/
theorem holds_text_of_isRelation {y : Float} (hy : y.isFinite = true) {e : Char}
    (he : e ∈ trim t) (hrel : isRelation e = true) :
    Condition.holds .equal (Condition.compareValues (.number y) (.text (String.ofList t))) =
      false := by
  have hnumber : Number.parseText? (String.ofList t) = none := by
    rw [Number.parseText?, String.toList_ofList]
    exact parse?_eq_none he hrel
  refine Condition.holds_text hnumber fun heq => ?_
  have hmem : e ∈ Number.display y := by
    rw [String.ofList_injective heq]
    exact (Text.isInfix_trim t).subset he
  rw [isRelation_of_isNumeralChar (isNumeralChar_of_mem_display hy hmem)] at hrel
  cases hrel

theorem IsArithmetic.answer_argument_of_trim (hu : IsArithmetic u vs ms) (ht : trim t = u)
    (hcells : x.cellValues (cells (scan u)) p = (vs, q)) (hvs : ∀ v ∈ vs, IsNumber v) {y : Float}
    (hy : Expression.evaluate (filled literal (scan u) vs) = .ok (.number y))
    (heval : eval u = value x.options u) :
    x.answer ((Argument.read t).value eval) p = (.ok (.number y), q) := by
  subst ht
  exact hu.answer_argument hcells hvs hy heval

theorem IsArithmetic.isRelation_append (hv : IsArithmetic v ws ns)
    (hd : ∀ e ∈ d, isBlank e = true) : ∀ e ∈ d ++ v, isRelation e = false :=
  List.forall_mem_append.2 ⟨fun e he => isRelation_of_isBlank (hd e he), hv.isRelation_eq_false⟩

theorem split?_of_blank {b : Text} (hop : (sign, op) ∈ Condition.operators)
    (hu : IsArithmetic u vs ms) (hc : ∀ e ∈ c, isBlank e = true)
    (hb : ∀ e ∈ b, isRelation e = true → e ∈ sign) :
    Condition.split? ((u ++ c) ++ (sign ++ b)) = some (u ++ c, op, b) := by
  have hclosed : Closed c := (closed_of_sign fun e he => .inl (hc e he)).1
  refine Condition.split?_append hop (hu.closed.append hclosed) ?_ hb
  exact List.forall_mem_append.2
    ⟨hu.isRelation_eq_false, fun e he => isRelation_of_isBlank (hc e he)⟩

section Condition

variable {y : Float} (hu : IsArithmetic u vs ms) (hv : IsArithmetic v ws ns)
  (hutrim : Trimmed u) (hvtrim : Trimmed v)
  (hc : ∀ e ∈ c, isBlank e = true) (hd : ∀ e ∈ d, isBlank e = true)
  (hvs : x.cellValues (cells (scan u)) p = (vs, q))
  (hws : x.cellValues (cells (scan v)) q = (ws, r)) (hnumbers : ∀ w ∈ vs ++ ws, IsNumber w)
  (hy : Expression.evaluate (filled literal (scan u) vs) = .ok (.number y))
  (hueval : eval u = value x.options u)
include hu hv hutrim hvtrim hc hd hvs hws hnumbers hy hueval

/-- The condition of two sides holds as the comparison of their numbers does. -/
theorem answer_test_of_sides {z : Float} (hop : (sign, op) ∈ Condition.operators)
    (hz : Expression.evaluate (filled literal (scan v) ws) = .ok (.number z))
    (hveval : eval v = value x.options v) :
    x.answer (Condition.test eval (u ++ ((c ++ (sign ++ d)) ++ v))) p =
      (.ok (.ok (op.ofNumbers y z)), r) := by
  obtain ⟨hvnumbers, hwnumbers⟩ := List.forall_mem_append.1 hnumbers
  have hu' : trim (u ++ c) = u := Text.trim_append (a := []) (by simp) hc hutrim hu.ne_nil
  have hv' : trim (d ++ v) = v := by
    have htrim := Text.trim_append (b := []) hd (by simp) hvtrim hv.ne_nil
    rwa [List.append_nil] at htrim
  have hsplit : Condition.split? (u ++ ((c ++ (sign ++ d)) ++ v)) = some (u ++ c, op, d ++ v) := by
    have hassoc : u ++ ((c ++ (sign ++ d)) ++ v) = (u ++ c) ++ (sign ++ (d ++ v)) := by simp
    rw [hassoc]
    refine split?_of_blank hop hu hc fun e he hrel => ?_
    rw [hv.isRelation_append hd e he] at hrel
    cases hrel
  rw [← Condition.holds_numbers]
  exact Condition.answer_test hsplit (hu.answer_argument_of_trim hu' hvs hvnumbers hy hueval) rfl
    (hv.answer_argument_of_trim hv' hws hwnumbers hz hveval) rfl

theorem answer_test_of_doubled (hyfinite : y.isFinite = true)
    (hveval : eval (['='] ++ (d ++ v)) = value x.options (['='] ++ (d ++ v))) :
    x.answer (Condition.test eval (u ++ ((c ++ (['=', '='] ++ d)) ++ v))) p =
      (.ok (.ok false), r) := by
  obtain ⟨hvnumbers, hwnumbers⟩ := List.forall_mem_append.1 hnumbers
  have hu' : trim (u ++ c) = u := Text.trim_append (a := []) (by simp) hc hutrim hu.ne_nil
  have hsign : Trimmed ['='] := ⟨by simp; decide, by simp; decide⟩
  have hv' : trim (['='] ++ (d ++ v)) = ['='] ++ (d ++ v) :=
    Text.trim_of_trimmed (hsign.append hvtrim (by simp) hv.ne_nil d)
  have hg : Spells (['='] ++ d) [.comparison .equal] :=
    Expression.spells_sign (w := ['=']) (u := []) (by decide +kernel) nofun hd
  have hsplit : Condition.split? (u ++ ((c ++ (['=', '='] ++ d)) ++ v)) =
      some (u ++ c, .equal, ['='] ++ (d ++ v)) := by
    have hassoc : u ++ ((c ++ (['=', '='] ++ d)) ++ v) =
        (u ++ c) ++ (['='] ++ (['='] ++ (d ++ v))) := by simp
    rw [hassoc]
    refine split?_of_blank (by decide) hu hc fun e he hrel => ?_
    refine (List.mem_append.1 he).elim id fun he => ?_
    rw [hv.isRelation_append hd e he] at hrel
    cases hrel
  have hequal : '=' ∈ trim (['='] ++ (d ++ v)) := by
    rw [hv']
    exact List.mem_cons_self
  rw [← holds_text_of_isRelation hyfinite hequal (by rfl)]
  refine Condition.answer_test (q := q) hsplit
    (hu.answer_argument_of_trim hu' hvs hvnumbers hy hueval) rfl ?_ rfl
  have hassoc : ['='] ++ (d ++ v) = (['='] ++ d) ++ v := (List.append_assoc _ _ _).symm
  have hright := answer_argument_of_sign hg hv (hv'.trans hassoc) hws hwnumbers
    (hv'.symm ▸ hveval)
  rwa [← hassoc] at hright

end Condition

end Sides

theorem exists_parse_of_ofScalar {b : Bool}
    (h : ofScalar (Expression.evaluate t) = .ok (.boolean b)) :
    ∃ e, Expression.parse t = .ok e ∧ e.value = .boolean b := by
  unfold Expression.evaluate at h
  cases hparse : Expression.parse t with
  | error e =>
    rw [hparse] at h
    cases h
  | ok e =>
    rw [hparse] at h
    dsimp only at h
    split at h
    · refine ⟨e, rfl, ?_⟩
      have hvalue : e.value.toValue = .boolean b := Except.ok.inj h
      cases he : e.value <;> simp_all [Expression.Scalar.toValue]
    · cases h

theorem exists_numbers_of_comparison (hg : Spells g [.comparison op])
    (hleft : IsArithmetic (trim left) vs ms) (hright : IsArithmetic (trim right) ws ns)
    (htrim : trim t = trim left ++ (g ++ trim right))
    (hvs : x.cellValues (cells (scan (trim left))) p = (vs, q))
    (hws : x.cellValues (cells (scan (trim right))) q = (ws, r))
    (hnumbers : ∀ v ∈ vs ++ ws, IsNumber v)
    (hleftFinite : (x.answer (value x.options left) p).1 ≠ .error .notFinite)
    (hrightFinite : (x.answer (value x.options right) q).1 ≠ .error .notFinite) {b : Bool}
    (hbody : (x.answer (value x.options t) p).1 = .ok (.boolean b)) :
    ∃ y z, op.ofNumbers y z = b ∧ y.isFinite = true ∧
      Expression.evaluate (filled literal (scan (trim left)) vs) = .ok (.number y) ∧
        Expression.evaluate (filled literal (scan (trim right)) ws) = .ok (.number z) := by
  obtain ⟨hvnumbers, hwnumbers⟩ := List.forall_mem_append.1 hnumbers
  rw [answer_value_comparison hleft.written hg hright.written htrim
    (hleft.answer_substitutePieces hvs hvnumbers)
    (hright.answer_substitutePieces hws hwnumbers)] at hbody
  obtain ⟨e, hparse, hvalue⟩ := exists_parse_of_ofScalar hbody
  obtain ⟨n, e₀, y₀, hd, -⟩ := hleft.exists_derives hvnumbers
  obtain ⟨a, b', rfl, hpa, hpb⟩ := (Expression.parse_comparison_iff hleft.spells_filled hg
    hright.spells_filled hleft.isRelation_filled hright.isRelation_filled hd).1 hparse
  obtain ⟨y, ha, hy, hfinite⟩ := hleft.evaluate_eq hvs hvnumbers hleftFinite hpa
  obtain ⟨z, hb, hz, -⟩ := hright.evaluate_eq hws hwnumbers hrightFinite hpb
  refine ⟨y, z, ?_, hfinite, hy, hz⟩
  rw [Expression.value, ha, hb] at hvalue
  exact Expression.Scalar.boolean.inj hvalue

/-- A choice by a comparison of arithmetic agrees with the value of the comparison, whatever the
blanks, if neither side fails by itself; but with the doubled equals sign it is always zero. -/
theorem answer_choice_of_comparison (x : Context) (p : Progress)
    (hsign : (sign, .comparison op) ∈ Expression.symbols)
    (hleft : IsArithmetic (trim left) vs ms) (hright : IsArithmetic (trim right) ws ns)
    (hvs : x.cellValues (cells (scan (trim left))) p = (vs, q))
    (hws : (x.cellValues (cells (scan (trim right))) q).1 = ws)
    (hnumbers : ∀ v ∈ vs ++ ws, IsNumber v)
    (hleftFinite : (x.answer (value x.options left) p).1 ≠ .error .notFinite)
    (hrightFinite : (x.answer (value x.options right) q).1 ≠ .error .notFinite) {b : Bool}
    (hbody : (x.answer (value x.options (left ++ (sign ++ right))) p).1 = .ok (.boolean b)) :
    (x.answer (value x.options (choiceOf (left ++ (sign ++ right)))) p).1 =
      .ok (.number (if b && sign != ['=', '='] then 1 else 0)) := by
  obtain ⟨r, hr⟩ : ∃ r, x.cellValues (cells (scan (trim right))) q = (ws, r) := ⟨_, by rw [← hws]⟩
  obtain ⟨a, c, d, e, hwhole, ha, hc, hd, he⟩ := exists_gap left sign right
  have hu := Text.trimmed_trim left
  have hv := Text.trimmed_trim right
  have htrim : trim (left ++ (sign ++ right)) =
      trim left ++ ((c ++ (sign ++ d)) ++ trim right) := by
    rw [hwhole]
    exact Text.trim_append ha he (hu.append hv hleft.ne_nil hright.ne_nil _)
      (List.append_ne_nil_of_left_ne_nil hleft.ne_nil _)
  obtain ⟨y, z, rfl, hfinite, hy, hz⟩ :=
    exists_numbers_of_comparison (Expression.spells_sign hsign hc hd) hleft hright htrim hvs hr
      hnumbers hleftFinite hrightFinite hbody
  obtain ⟨hl, hlcomma⟩ := hleft.closed_of_trim
  obtain ⟨hr', hrcomma⟩ := hright.closed_of_trim
  obtain ⟨hs, hscomma⟩ := closed_of_sign fun c hc =>
    .inr (Expression.isRelation_of_mem_symbols hsign c hc)
  have hcomma : ',' ∉ left ++ (sign ++ right) := by simp [hlcomma, hscomma, hrcomma]
  refine congrArg Prod.fst (answer_choiceOf (q := r) (hl.append (hs.append hr')) hcomma ?_)
  intro eval heval
  have hlength := congrArg List.length hwhole
  simp only [List.length_append] at hlength
  have hueval : eval (trim left) = value x.options (trim left) := heval _ (by
    simp only [List.length_append]
    omega)
  rw [htrim]
  by_cases hdoubled : sign = ['=', '=']
  · subst hdoubled
    have hveval : eval (['='] ++ (d ++ trim right)) = value x.options _ := heval _ (by
      simp only [List.length_append, List.length_cons, List.length_nil] at hlength ⊢
      omega)
    rw [bne_self_eq_false, Bool.and_false]
    exact answer_test_of_doubled hleft hright hu hv hc hd hvs hr hnumbers hy hueval hfinite hveval
  · have hveval : eval (trim right) = value x.options (trim right) := heval _ (by
      simp only [List.length_append]
      omega)
    rw [bne_iff_ne.2 hdoubled, Bool.and_true]
    exact answer_test_of_sides hleft hright hu hv hc hd hvs hr hnumbers hy hueval
      (Condition.mem_operators hsign hdoubled) hz hveval

/-- The numbers `-3` and `5` in a row. -/
def minusThreeFive : Context := .untracked (.ofRows #[#[.number (-3), .number 5]]) .standard

theorem scan_doubled : scan "A1*2".toList =
    Piece.ofText [] ++ .token ['A', '1'] (.cell (.relative ⟨0, 0⟩)) :: Piece.ofText ['*', '2'] := by
  decide +kernel

theorem scan_next : scan "B1".toList =
    Piece.ofText [] ++ .token ['B', '1'] (.cell (.relative ⟨0, 1⟩)) :: Piece.ofText [] := by
  decide +kernel

theorem isArithmetic_doubled (v : Value) :
    IsArithmetic "A1*2".toList [v] [.value v, .token .star, .token (.number 2)] where
  marked := by
    have hafter : Spells ['*', '2'] [.star, .number 2] := by
      rw [← Expression.ofText_eq_iff, Expression.Tokens.mk.injEq]
      decide +kernel
    rw [scan_doubled]
    exact .cell .nil (.run hafter)
  tokens := by simp [Expression.Token.isArithmetic]
  grammar := by
    have hproduct := Derives.step (n := 1) (k := .star) (c := .product)
      (.single (.base (.unsigned (.number 0)))) .multiply (.base (.unsigned (.number 2)))
    exact ⟨1, _, .single (.single hproduct)⟩

theorem isArithmetic_next (v : Value) : IsArithmetic "B1".toList [v] [.value v] where
  marked := by
    rw [scan_next]
    exact .cell .nil (.run .nil)
  tokens := by simp
  grammar := ⟨1, _, .single (.single (.single (.base (.unsigned (.number 0)))))⟩

/-- A product against a reference, with blanks around the sign. -/
theorem answer_choice_of_comparison_references :
    (minusThreeFive.answer (value minusThreeFive.options
      (choiceOf ("A1*2 ".toList ++ ("<=".toList ++ " B1".toList)))) .start).1 =
        .ok (.number 1) := by
  have hleft : trim "A1*2 ".toList = "A1*2".toList := by decide +kernel
  have hright : trim " B1".toList = "B1".toList := by decide +kernel
  have hvs : minusThreeFive.cellValues (cells (scan (trim "A1*2 ".toList))) .start =
      ([.number (-3)], (minusThreeFive.cellValues (cells (scan (trim "A1*2 ".toList))) .start).2) :=
    Prod.ext (by decide +kernel) rfl
  have hsign : ("<=".toList, .comparison .lessEqual) ∈ Expression.symbols := by decide +kernel
  refine answer_choice_of_comparison minusThreeFive .start hsign
    (hleft ▸ isArithmetic_doubled (.number (-3))) (hright ▸ isArithmetic_next (.number 5)) hvs
    (by decide +kernel) ?_ ?_ ?_ (b := true) (eq_ok_of_toOption (by decide +kernel))
  · simp only [List.cons_append, List.nil_append, List.forall_mem_cons]
    exact ⟨⟨-3, rfl, by decide +kernel⟩, ⟨5, rfl, by decide +kernel⟩, nofun⟩
  · exact ne_error_of_toOption (a := .number (-6)) (by decide +kernel)
  · exact ne_error_of_toOption (a := .number 5) (by decide +kernel)

theorem isArithmetic_infinity :
    IsArithmetic "1/0".toList [] [.token (.number 1), .token .slash, .token (.number 0)] where
  marked := by
    have hscan : scan "1/0".toList = Piece.ofText ['1', '/', '0'] := by decide +kernel
    have hspells : Spells ['1', '/', '0'] [.number 1, .slash, .number 0] := by
      rw [← Expression.ofText_eq_iff, Expression.Tokens.mk.injEq]
      decide +kernel
    rw [hscan]
    exact .run hspells
  tokens := by simp [Expression.Token.isArithmetic]
  grammar := by
    have hquotient := Derives.step (n := 1) (k := .slash) (c := .product)
      (.single (.base (.unsigned (.number 1)))) .divide (.base (.unsigned (.number 0)))
    exact ⟨1, _, .single (.single hquotient)⟩

/-- The sign `==` is no comparison of a choice, which reads `=B1` as a text; so it reads a side that
is an infinity by itself. -/
theorem answer_choice_ne_of_comparison :
    (IsArithmetic "B1".toList [.number 5] [.value (.number 5)] ∧
      ("==".toList, .comparison .equal) ∈ Expression.symbols ∧
      (minusThreeFive.answer (value minusThreeFive.options "B1==B1".toList) .start).1 =
        .ok (.boolean true) ∧
      (minusThreeFive.answer (value minusThreeFive.options (choiceOf "B1==B1".toList)) .start).1 =
        .ok (.number 0)) ∧
    IsArithmetic "1/0".toList [] [.token (.number 1), .token .slash, .token (.number 0)] ∧
      (">".toList, .comparison .greaterThan) ∈ Expression.symbols ∧
      (minusThreeFive.answer (value minusThreeFive.options "1/0>B1".toList) .start).1 =
        .ok (.boolean true) ∧
      (minusThreeFive.answer (value minusThreeFive.options (choiceOf "1/0>B1".toList)) .start).1 =
        .ok (.number 0) :=
  ⟨⟨isArithmetic_next _, by decide +kernel, eq_ok_of_toOption (by decide +kernel),
    eq_ok_of_toOption (by decide +kernel)⟩, isArithmetic_infinity, by decide +kernel,
    eq_ok_of_toOption (by decide +kernel), eq_ok_of_toOption (by decide +kernel)⟩

end Agreement

end Spreadsheet.Formula
