import Spreadsheet.Proofs.Context
import Spreadsheet.Proofs.Formula.Mark

/-!
A formula without calls, its references replaced by the texts of their values and read again, against
its expression with the values in the places of the references. Where a reference stands, the text
of its value goes as one operand, whatever the value: neither its sign nor its digits join what
stands around it. Both ways therefore give the same value.
-/
namespace Spreadsheet.Formula

open Expression (Derives Spells)

variable {ps : List Piece} {vs : List Value} {us : List (Mark Value)} {t : Text}

def Mark.operand : Mark Value → Expression.Token
  | .token k => k
  | .value v => Formula.operand v

section Shape

theorem exists_derives_operand (v : Value) : ∃ e, Derives 0 .primary [operand v] e := by
  cases v with
  | boolean b =>
    refine ⟨.boolean b, .constant ?_⟩
    cases b with
    | false => exact .tail _ (.head _)
    | true => exact .head _
  | _ => exact ⟨_, .number _⟩

theorem exists_derives_values {n : Nat} {e : Expression}
    (h : Derives n (.chain .comparison) (us.map Mark.atom) e) :
    ∃ e, Derives n (.chain .comparison) (us.map Mark.operand) e := by
  obtain ⟨e, hd⟩ := exists_derives_flatMap (g := fun u => [u.operand]) (m := 0) (fun _ => rfl)
    (fun v _ => (exists_derives_operand v).imp fun _ => .unsigned) h
  rw [← List.map_eq_flatMap] at hd
  exact ⟨e, hd⟩

/-- The values written out form an expression of the same value. -/
theorem exists_derives_filled {n : Nat} {e : Expression}
    (h : Derives n (.chain .comparison) (us.map Mark.operand) e) :
    ∃ e', Derives (n + 2) (.chain .comparison) (us.flatMap (Mark.phrase literal)) e' ∧
      e.value = e'.value := by
  refine h.replace Expression.congruence_value fun u _ => ?_
  cases u with
  | token k => exact .inl rfl
  | value v =>
    obtain ⟨ts, hts⟩ := standsIn_literal v
    rw [hts.phrase]
    exact hts.standsFor

theorem Marked.spells_filled (h : Marked ps vs us)
    {n : Nat} {e : Expression} (hd : Derives n (.chain .comparison) (us.map Mark.atom) e) :
    Spells (filled literal ps vs) (us.flatMap (Mark.phrase literal)) :=
  Formula.spells_filled h hd.isChain fun v _ => ⟨_, standsIn_literal v⟩

end Shape

section Queries

theorem substitutePieces_append (w : Text) (ps : List Piece) :
    substitutePieces (Piece.ofText w ++ ps) =
      substitutePieces ps >>= fun t => Query.done (w ++ t) := by
  induction w with
  | nil => exact (Query.bind_done _).symm
  | cons c w ih =>
    change substitutePieces (Piece.ofText w ++ ps) >>= (fun t => Query.done ([c] ++ t)) = _
    rw [ih, bind_assoc]
    rfl

variable {x : Context} {p : Progress}

/-- References are replaced one after the other, each by the value that its cell then has. -/
theorem answer_substitutePieces (h : Marked ps vs us) (hvs : (x.cellValues (cells ps) p).1 = vs)
    (hvalues : ∀ v ∈ vs, v.isError = false) :
    x.answer (substitutePieces ps) p = (.ok (filled literal ps vs), (x.cellValues (cells ps) p).2) := by
  induction h generalizing p with
  | @run w ts _ =>
    have hpieces := substitutePieces_append w []
    rw [List.append_nil] at hpieces
    rw [hpieces, cells_ofText, filled_ofText]
    exact congrArg (fun t => (Except.ok t, p)) (List.append_nil w)
  | @cell w s r ts ps v vs us _ _ ih =>
    rw [cells_append] at hvs ⊢
    have hv : (x.cellValue r.cell p).1 = v := (List.cons.inj hvs).1
    have hvs : (x.cellValues (cells ps) (x.cellValue r.cell p).2).1 = vs := (List.cons.inj hvs).2
    obtain ⟨hok, hvalues⟩ := List.forall_mem_cons.1 hvalues
    have hrest := ih hvs hvalues
    have hliteral : x.answer (.computed r.cell fun v => .ofExcept (cellLiteral v)) p =
        (.ok (literal v), (x.cellValue r.cell p).2) := by
      rw [x.answer_computed, hv, cellLiteral_eq hok]
      rfl
    have hpieces : x.answer (substitutePieces (.token s (.cell r) :: ps)) p =
        (.ok (literal v ++ filled literal ps vs), (x.cellValues (cells ps) (x.cellValue r.cell p).2).2) :=
      (Context.answer_bind_of_ok hliteral).trans (Context.answer_bind_of_ok hrest)
    rw [substitutePieces_append, filled_append]
    exact Context.answer_bind_of_ok hpieces

end Queries

section Calls

variable {o : Options} {eval : Text → Query Value} {before : Option Char} {q : Bool}
  {known : Text → Bool}

/-- No known function is called in the text. -/
structure CallFree (t : Text) : Prop where
  plain : ∀ s ∈ segments LibraryFunction.isKnown t, ∃ c, s = .plain c
  whole : ∀ name args, wholeCall? t = some (name, args) → LibraryFunction.isKnown name = false

/-- The text is not a reference, a literal or a range as a whole. -/
structure Composite (t : Text) : Prop where
  reference : Reference.read? t = none
  literal : Text.literal? t = none
  range : Range.read? t = none

theorem expandSegments_plain {ss : List Segment} (h : ∀ s ∈ ss, ∃ c, s = .plain c) :
    expandSegments o eval ss = .done (ss.flatMap Segment.text) := by
  induction ss with
  | nil => rfl
  | cons s ss ih =>
    obtain ⟨⟨c, rfl⟩, hss⟩ := List.forall_mem_cons.1 h
    unfold expandSegments
    rw [ih hss]
    rfl

theorem flatMap_text_segmentsFrom (h : ∀ s ∈ segmentsFrom known before q t, ∃ c, s = .plain c) :
    (segmentsFrom known before q t).flatMap Segment.text = t := by
  fun_induction segmentsFrom known before q t with
  | case1 => rfl
  | case2 before q r ih => simpa [Segment.text] using ih (List.forall_mem_cons.1 h).2
  | case3 before q c r _ _ ih => simpa [Segment.text] using ih (List.forall_mem_cons.1 h).2
  | case4 before q c r _ _ _ ih => simpa [Segment.text] using ih (List.forall_mem_cons.1 h).2
  | case5 =>
    obtain ⟨c, hc⟩ := h _ List.mem_cons_self
    cases hc
  | case6 =>
    obtain ⟨c, hc⟩ := h _ List.mem_cons_self
    cases hc
  | case7 before q c r _ _ name inner _ _ ih =>
    simpa [Segment.text] using ih (List.forall_mem_cons.1 h).2

theorem expandCalls_of_callFree (h : CallFree t) : expandCalls o eval t = .done t := by
  unfold expandCalls
  rw [expandSegments_plain h.plain]
  exact congrArg Query.done (flatMap_text_segmentsFrom h.plain)

theorem valueWith_eq_plainValue (hcalls : ∀ name args,
    wholeCall? (Text.trim t) = some (name, args) → LibraryFunction.isKnown name = false)
    (hne : Text.trim t ≠ []) : valueWith o eval t = plainValue o eval (Text.trim t) := by
  unfold valueWith
  rw [if_neg hne]
  split
  · rename_i name args hwhole
    rw [if_neg (by simp [hcalls name args hwhole])]
  · rfl

theorem valueWith_of_callFree (hcalls : CallFree (Text.trim t))
    (hcomposite : Composite (Text.trim t)) (hne : Text.trim t ≠ []) :
    valueWith o eval t = substituteReferences (Text.trim t) >>= fun s =>
      .ofExcept (ofScalar (Expression.evaluate s)) := by
  have hplain : plainValue o eval (Text.trim t) = expressionValue o eval (Text.trim t) := by
    unfold plainValue
    rw [hcomposite.reference, hcomposite.literal, hcomposite.range]
    rfl
  rw [valueWith_eq_plainValue hcalls.whole hne, hplain]
  unfold expressionValue
  rw [expandCalls_of_callFree hcalls]
  rfl

end Calls

/-- A formula without calls that is an expression where each reference counts as one operand has the
value of that expression with the values of the cells in the places of the references, as long as
the text with them is not nested too deeply. -/
theorem answer_value_of_marked (x : Context) (t : Text) (p : Progress) {n : Nat} {e₀ : Expression}
    (hcalls : CallFree (Text.trim t)) (hcomposite : Composite (Text.trim t))
    (hvs : (x.cellValues (cells (scan (Text.trim t))) p).1 = vs)
    (hmarked : Marked (scan (Text.trim t)) vs us)
    (hgrammar : Derives n (.chain .comparison) (us.map Mark.atom) e₀)
    (hvalues : ∀ v ∈ vs, v.isError = false)
    (hlimit : ∀ s, (x.answer (substituteReferences (Text.trim t)) p).1 = .ok s →
      Expression.parse s ≠ .error .nestedTooDeeply) :
    ∃ e, (∀ e', (∃ n, Derives n (.chain .comparison) (us.map Mark.operand) e') ↔ e' = e) ∧
      (x.answer (value x.options t) p).1 =
        if e.value.isFinite then .ok e.value.toValue else .error .notFinite := by
  have hsubstituted := answer_substitutePieces hmarked hvs hvalues
  have hspells := hmarked.spells_filled hgrammar
  obtain ⟨e, hd⟩ := exists_derives_values hgrammar
  obtain ⟨e', hd', he⟩ := exists_derives_filled hd
  have hparse := (Expression.outcome_parse hspells hd').resolve_right fun hdeep =>
    hlimit _ (congrArg Prod.fst hsubstituted) hdeep.2
  have hevaluate : Expression.evaluate (filled literal (scan (Text.trim t)) vs) =
      if e.value.isFinite then .ok e.value else .error .notFinite := by
    unfold Expression.evaluate
    rw [hparse, he]
  have hne : Text.trim t ≠ [] := by
    intro hnil
    have hscan : scan [] = [] := by rw [scan, scanFrom]
    rw [hnil, hscan] at hspells
    obtain ⟨k, ks, hcons, -⟩ := hd'.exists_cons
    rw [hspells.eq_nil] at hcons
    cases hcons
  have htree : ∀ e', (∃ n, Derives n (.chain .comparison) (us.map Mark.operand) e') ↔ e' = e := by
    intro e'
    constructor
    · rintro ⟨m, hd'⟩
      exact hd'.unique hd
    · rintro rfl
      exact ⟨n, hd⟩
  refine ⟨e, htree, ?_⟩
  rw [value, valueWith_of_callFree hcalls hcomposite hne]
  rw [show substituteReferences (Text.trim t) = substitutePieces (scan (Text.trim t)) from rfl,
    Context.answer_bind_of_ok hsubstituted, hevaluate]
  split <;> rfl

/-- A negative number in `A1` and a text in `B1`. -/
def minusThree : Context := .untracked (.ofRows #[#[.number (-3), .text "x"]]) .standard

def signedSum : Text := "-A1*2+B1".toList

theorem trim_signedSum : Text.trim signedSum = signedSum := by decide +kernel

theorem scan_signedSum : scan signedSum =
    Piece.ofText ['-'] ++ .token ['A', '1'] (.cell (.relative ⟨0, 0⟩)) ::
      (Piece.ofText ['*', '2', '+'] ++ .token ['B', '1'] (.cell (.relative ⟨0, 1⟩)) ::
        Piece.ofText []) := by
  decide +kernel

theorem callFree_signedSum : CallFree signedSum where
  plain := by
    have hsegments : segments LibraryFunction.isKnown signedSum = signedSum.map .plain := by
      decide +kernel
    rw [hsegments]
    intro s hs
    obtain ⟨c, -, rfl⟩ := List.mem_map.1 hs
    exact ⟨c, rfl⟩
  whole := by
    have hwhole : wholeCall? signedSum = none := by decide +kernel
    rw [hwhole]
    exact fun _ _ => nofun

def signedSumMarks (a b : Value) : List (Mark Value) :=
  [.token .minus, .value a, .token .star, .token (.number 2), .token .plus, .value b]

theorem marked_signedSum (a b : Value) :
    Marked (scan signedSum) [a, b] (signedSumMarks a b) := by
  have hsign : Spells ['-'] [.minus] := by
    rw [← Expression.ofText_eq_iff, Expression.Tokens.mk.injEq]
    decide +kernel
  have hbetween : Spells ['*', '2', '+'] [.star, .number 2, .plus] := by
    rw [← Expression.ofText_eq_iff, Expression.Tokens.mk.injEq]
    decide +kernel
  rw [scan_signedSum]
  exact .cell hsign (.cell hbetween (.run .nil))

def signedSumOf (a b : Float) : Expression :=
  .binary (.arithmetic .add)
    (.binary (.arithmetic .multiply) (.unary .negate (.number a)) (.number 2)) (.number b)

theorem derives_signedSum (a b : Float) : Derives 1 (.chain .comparison)
    [.minus, .number a, .star, .number 2, .plus, .number b] (signedSumOf a b) := by
  have hsigned : Derives 1 .power [.minus, .number a] (.unary .negate (.number a)) :=
    .base (.sign .minus (.unsigned (.number a)))
  have hnumber : ∀ x, Derives 1 .power [.number x] (.number x) := fun x =>
    .base (.unsigned (.number x))
  have hproduct : Derives 1 (.chain .product) [.minus, .number a, .star, .number 2]
      (.binary (.arithmetic .multiply) (.unary .negate (.number a)) (.number 2)) :=
    .step (.single hsigned) .multiply (hnumber 2)
  exact .single (.step (k := .plus) (c := .sum) (.single hproduct) .add (.single (hnumber b)))

/-- The sign of the number does not run into the sign before it. -/
theorem answer_value_of_marked_signedSum :
    (minusThree.answer (value minusThree.options signedSum) .start).1 = .ok (.number 6) := by
  have hvs : (minusThree.cellValues (cells (scan signedSum)) .start).1 =
      [.number (-3), .text "x"] := by
    decide +kernel
  have hmarked := marked_signedSum (.number (-3)) (.text "x")
  have hvalues : ∀ v ∈ [Value.number (-3), .text "x"], v.isError = false := by decide
  have hlimit : ∀ s, (minusThree.answer (substituteReferences signedSum) .start).1 = .ok s →
      Expression.parse s ≠ .error .nestedTooDeeply := by
    have hfilled := answer_substitutePieces hmarked hvs hvalues
    have htext : filled literal (scan signedSum) [.number (-3), .text "x"] = "-(-3)*2+0".toList := by
      decide +kernel
    have hshallow : (Expression.parse "-(-3)*2+0".toList).toOption.isSome = true := by
      decide +kernel
    intro s hs hparse
    rw [show substituteReferences signedSum = substitutePieces (scan signedSum) from rfl, hfilled,
      htext] at hs
    obtain rfl := Except.ok.inj hs
    rw [hparse] at hshallow
    cases hshallow
  have hcomposite : Composite signedSum := by constructor <;> decide +kernel
  have hcalls := callFree_signedSum
  have hgrammar : Derives 1 (.chain .comparison)
      ((signedSumMarks (.number (-3)) (.text "x")).map Mark.atom) (signedSumOf 0 0) :=
    derives_signedSum 0 0
  have hgrammar' : Derives 1 (.chain .comparison)
      ((signedSumMarks (.number (-3)) (.text "x")).map Mark.operand) (signedSumOf (-3) 0) := by
    have hoperands : (signedSumMarks (.number (-3)) (.text "x")).map Mark.operand =
      [.minus, .number (-3), .star, .number 2, .plus, .number 0] := by decide +kernel
    rw [hoperands]
    exact derives_signedSum (-3) 0
  rw [← trim_signedSum] at hvs hmarked hlimit hcomposite hcalls
  obtain ⟨e, htree, hvalue⟩ := answer_value_of_marked minusThree signedSum .start
    hcalls hcomposite hvs hmarked hgrammar hvalues hlimit
  obtain rfl : signedSumOf (-3) 0 = e := (htree _).1 ⟨1, hgrammar'⟩
  have hsix : (signedSumOf (-3) 0).value = .number 6 := by decide +kernel
  rw [hvalue, hsix]
  rfl

end Spreadsheet.Formula
