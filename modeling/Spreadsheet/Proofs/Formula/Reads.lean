import Spreadsheet.Formula.Evaluate
import Spreadsheet.Proofs.Formula.Apart
import Spreadsheet.Proofs.Library.Reads
import Spreadsheet.Proofs.Number.Digits
import Spreadsheet.Proofs.Reference

/-!
What formula text reads: the cells that its tokens cover and no others. Every text that evaluation
looks at is a part of the formula, except for the one with values in the place of its calls; and
there no token arises, as long as the calls stand apart from references around them.
-/
namespace Spreadsheet.Formula

open Text (Part)

variable {P : Cell → Prop} {eval : Text → Query Value} {s t : Text} {o : Options}

section Literal

variable {x : Float} {c : Char} {lit : Text}

/-- A character of a numeral. -/
def isNumeralChar (c : Char) : Bool :=
  c.isDigit || c == '.' || c == '-' || c == '(' || c == ')'

theorem isLiteral_of_numeral (h : ∀ c ∈ lit, isNumeralChar c = true) : IsLiteral lit := by
  refine .inl fun c hc => ?_
  have hnum := h c hc
  simp only [isNumeralChar, Bool.or_eq_true, beq_iff_eq] at hnum
  rcases hnum with (((hdigit | rfl) | rfl) | rfl) | rfl
  · refine ⟨Text.isUpper_of_isDigit hdigit, ?_, ?_⟩ <;>
    · rintro rfl
      exact absurd hdigit (by decide)
  all_goals decide

theorem isNumeralChar_of_isDigit (h : c.isDigit = true) : isNumeralChar c = true := by
  simp [isNumeralChar, h]

theorem isNumeralChar_of_mem_positional {d : Number.Digits} (h : c ∈ d.positional false) :
    isNumeralChar c = true := by
  have hfull := d.inFull_positional
  generalize d.positional false = t at h hfull
  cases hfull with
  | whole _ hws _ _ => exact isNumeralChar_of_isDigit (hws c h)
  | point _ hws hfs _ _ =>
    rcases List.mem_append.1 h with h | h
    · exact isNumeralChar_of_isDigit (hws c h)
    · rcases List.mem_cons.1 h with rfl | h
      · rfl
      · exact isNumeralChar_of_isDigit (hfs c h)

theorem isNumeralChar_of_mem_write (hx : x.isFinite = true) (h : c ∈ Number.plain.write x) :
    isNumeralChar c = true := by
  obtain ⟨s, m, e, hfinite⟩ := Number.Binary.exists_finite hx
  simp only [Number.Form.write, hfinite] at h
  rcases List.mem_append.1 h with h | h
  · split at h
    · rw [List.mem_singleton.1 h]
      rfl
    · cases h
  · rw [Number.Form.magnitude, if_neg (by simp [Number.plain])] at h
    exact isNumeralChar_of_mem_positional h

theorem isNumeralChar_of_mem_numberLiteral (hx : x.isFinite = true) (h : c ∈ numberLiteral x) :
    isNumeralChar c = true := by
  unfold numberLiteral at h
  split at h
  · rcases List.mem_append.1 h with h | h
    · rcases List.mem_cons.1 h with rfl | h
      · rfl
      · exact isNumeralChar_of_mem_write hx h
    · rw [List.mem_singleton.1 h]
      rfl
  · exact isNumeralChar_of_mem_write hx h

theorem isLiteral_numberLiteral (hx : x.isFinite = true) : IsLiteral (numberLiteral x) :=
  isLiteral_of_numeral fun _ => isNumeralChar_of_mem_numberLiteral hx

theorem isLiteral_booleanLiteral (b : Bool) : IsLiteral (booleanLiteral b) := by
  cases b with
  | true => exact .inr (List.all_eq_true.1 (by decide))
  | false => exact .inr (List.all_eq_true.1 (by decide))

theorem isLiteral_callLiteral {v : Value} (h : callLiteral v = .ok lit) : IsLiteral lit := by
  unfold callLiteral at h
  split at h
  · cases h
  · cases h
    exact isLiteral_booleanLiteral _
  · split at h
    · rename_i x hx
      cases h
      exact isLiteral_numberLiteral (LibraryFunction.isFinite_of_number? hx)
    · cases h

end Literal

section Substitution

theorem within_substitutePieces {ps : List Piece}
    (h : ∀ s r, Piece.token s (.cell r) ∈ ps → P r.cell) : (substitutePieces ps).Within P := by
  induction ps with
  | nil => exact Query.within_done _
  | cons p ps ih =>
    have hp : p.substitute.Within P := by
      unfold Piece.substitute
      split
      · exact Query.within_done _
      · rename_i s r
        exact Query.within_computed (h s r List.mem_cons_self) fun v => Query.within_ofExcept _
      · exact Query.within_fail _
    refine hp.bind fun t => (ih ?_).bind fun u => Query.within_done _
    intro s r hr
    exact h s r (List.mem_cons_of_mem p hr)

theorem within_substituteReferences (limit : Nat) (h : ∀ c, MayRead limit t c → P c) :
    (substituteReferences t).Within P := by
  refine within_substitutePieces fun s r hr => h r.cell ⟨.cell r, mem_tokens.2 ⟨s, hr⟩, ?_, ?_⟩
  · exact (nomatch ·)
  · exact Range.mem_cells_single.2 rfl

end Substitution

theorem within_callNamed {name args : Text} (h : Reader o eval P args) :
    (callNamed o eval name args).Within P := by
  unfold callNamed
  split
  · exact Query.within_fail _
  · refine LibraryFunction.within_call _ fun a ha => ?_
    obtain ⟨s, hs, rfl⟩ := List.mem_map.1 ha
    exact Argument.reads_read (h.of_part (Text.part_of_mem_splitArguments hs))

theorem ensures_expandSegments {ss : List Segment}
    (h : ∀ name args, .call name args ∈ ss → Reader o eval P args) :
    (expandSegments o eval ss).Ensures P (Expands ss) := by
  induction ss with
  | nil => exact .nil
  | cons s ss ih =>
    have hrest := ih fun name args ha => h name args (List.mem_cons_of_mem s ha)
    cases s with
    | plain c => exact hrest.bind fun u hu => .plain hu
    | call name args =>
      have hcall : (callNamed o eval name args).Within P :=
        within_callNamed (h name args List.mem_cons_self)
      have hlit : (Segment.expand o eval (.call name args)).Ensures P IsLiteral :=
        Query.Ensures.bind hcall fun v _ => Query.ensures_ofExcept fun lit => isLiteral_callLiteral
      exact hlit.bind fun lit hlit => hrest.bind fun u hu => .call hlit hu
    | unclosed name => trivial

theorem within_expressionValue (ht : Reader o eval P t) (hcalls : callsApart t = true) :
    (expressionValue o eval t).Within P := by
  have hexpand : (expandCalls o eval t).Ensures P
      (Expands (segments LibraryFunction.isKnown t)) :=
    ensures_expandSegments fun name args ha => ht.of_part (part_of_call_mem_segments ha)
  refine Query.Ensures.bind hexpand fun u hu => ?_
  refine Query.Within.bind (within_substituteReferences o.maxRangeCells fun c hc => ?_) fun _ =>
    Query.within_ofExcept _
  obtain ⟨k, hk, hc⟩ := hc
  exact ht.reads c ⟨k, mem_tokens_of_expands hcalls hu hk, hc⟩

theorem within_plainValue (ht : Reader o eval P t) (hcalls : callsApart t = true) :
    (plainValue o eval t).Within P := by
  unfold plainValue
  split
  · rename_i r hr
    exact Query.within_computed (ht.reads _ (mayRead_of_reference hr _)) fun v =>
      Query.within_done v
  · split
    · exact Query.within_done _
    · split
      · exact Query.within_fail _
      · exact within_expressionValue ht hcalls

theorem within_valueWith (ht : Reader o eval P t) (hcalls : callsApart t = true) :
    (valueWith o eval t).Within P := by
  have htrim := ht.of_part (Text.part_trim t)
  have hplain : (plainValue o eval (Text.trim t)).Within P :=
    within_plainValue htrim (callsApart_of_part (Text.part_trim t) hcalls)
  simp only [valueWith]
  split
  · exact Query.within_fail _
  · split
    · rename_i name args hcall
      split
      · exact within_callNamed (htrim.of_part (part_of_wholeCall? hcall))
      · exact hplain
    · exact hplain

theorem reader_value {n : Nat} (ih : ∀ s, s.length < n → callsApart s = true →
    (∀ c, MayRead o.maxRangeCells s c → P c) → (value o s).Within P) (ht : callsApart t = true)
    (hreads : ∀ c, MayRead o.maxRangeCells t c → P c) :
    Reader o (fun s => if s.length < n then value o s else .fail .emptyFormula) P t := by
  refine ⟨hreads, fun s hs => ?_⟩
  split
  · rename_i hlt
    exact ih s hlt (callsApart_of_part hs ht) fun c hc => hreads c (hc.of_part hs)
  · exact Query.within_fail _

/-- A formula whose calls stand apart reads no cell but those that its tokens cover, and of a range
that is too large to visit none. -/
theorem within_value (o : Options) (ht : callsApart t = true)
    (hreads : ∀ c, MayRead o.maxRangeCells t c → P c) : (value o t).Within P := by
  induction hn : t.length using Nat.strongRecOn generalizing t with
  | ind n ih =>
    subst hn
    rw [value]
    refine within_valueWith (reader_value (fun s hs hcalls hc => ?_) ht hreads) ht
    exact ih s.length hs hcalls hc rfl

theorem part_body (t : Text) : Part (body t) t := by
  refine Part.trans ?_ (Text.part_trim t)
  unfold body
  split
  · rename_i r hr
    rw [hr]
    refine ⟨['='], [], by simp, rfl, fun c hc => ?_, by simp⟩
    obtain rfl := Option.some.inj hc
    decide
  · exact .refl _

theorem within_body_mayRead (o : Options) (ht : callsApart t = true) :
    (value o (body t)).Within (MayRead o.maxRangeCells t) :=
  within_value o (callsApart_of_part (part_body t) ht) fun _ hc => hc.of_part (part_body t)

/-- What stands in a cell reads no cell but those that its tokens cover. -/
theorem within_body (o : Options) (ht : callsApart t = true) :
    (value o (body t)).Within (Covers t) :=
  (within_body_mayRead o ht).mono fun _ => MayRead.covers

end Spreadsheet.Formula
