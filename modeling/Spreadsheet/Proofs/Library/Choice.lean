import Spreadsheet.Formula.Evaluate
import Spreadsheet.Proofs.Context
import Spreadsheet.Proofs.Expression.Comparison
import Spreadsheet.Proofs.Formula.Joined
import Spreadsheet.Proofs.Number.Order
import Spreadsheet.Proofs.Text.Closed
import Spreadsheet.Proofs.Text.Search

/-!
Choosing by a comparison. The condition is cut at its comparison sign, wherever the sign is among
those searched for, and holds as the comparison of the numbers of its two sides does.
-/
namespace Spreadsheet

open Expression (Comparison isRelation)
open Text (Closed isBlank trim)

variable {a b c sign t : Text} {op : Comparison} {x : Context} {p q r : Progress}
  {eval : Text → Query Value}

namespace Condition

/-- The signs of the parser but for the doubled equals sign are those that a condition is cut at. -/
theorem mem_operators (hsign : (sign, .comparison op) ∈ Expression.symbols)
    (hsingle : sign ≠ ['=', '=']) : (sign, op) ∈ operators := by
  simp only [Expression.symbols, List.mem_cons, Prod.mk.injEq, List.not_mem_nil, or_false,
    reduceCtorEq, and_false, false_or, Expression.Token.comparison.injEq] at hsign
  rcases hsign with ⟨rfl, rfl⟩ | ⟨rfl, rfl⟩ | ⟨rfl, rfl⟩ | ⟨rfl, rfl⟩ | ⟨rfl, rfl⟩ | ⟨rfl, rfl⟩ |
    ⟨rfl, rfl⟩ | ⟨rfl, rfl⟩ <;> first | decide | exact absurd rfl hsingle

/-- A condition is cut at its first comparison sign, if what follows has only characters of that
sign. -/
theorem split?_append (hop : (sign, op) ∈ operators) (ha : Closed a)
    (harel : ∀ c ∈ a, isRelation c = false) (hbrel : ∀ c ∈ b, isRelation c = true → c ∈ sign) :
    split? (a ++ (sign ++ b)) = some (a, op, b) := by
  have hchars : ∀ part ∈ operators.map Prod.fst, part ≠ [] ∧
      ∀ c ∈ part, Text.isSign c = true ∧ isRelation c = true := by
    simp [operators, Text.isSign, isRelation]
  have hleft {c : Char} (hc : isRelation c = true) : c ∉ a := by
    intro hmem
    rw [harel c hmem] at hc
    cases hc
  have horder : (operators.map Prod.fst).Pairwise fun p q => ∃ c ∈ p, c ∉ q := by
    simp [operators]
  have hlookup : operators.lookup sign = some op :=
    (by decide : ∀ p ∈ operators, operators.lookup p.1 = some p.2) _ hop
  obtain ⟨hne, hsign⟩ := hchars sign (List.mem_map_of_mem hop)
  obtain ⟨before, after, hsigns⟩ := List.append_of_mem (List.mem_map_of_mem (f := Prod.fst) hop)
  have hfound : Text.findTopLevel? (a ++ (sign ++ b)) (operators.map Prod.fst) =
      some (Text.utf8Length a, sign) := by
    rw [hsigns] at hchars horder ⊢
    have hsigns : ∀ part ∈ before ++ sign :: after, part ≠ [] ∧ ∀ c ∈ part, Text.isSign c = true :=
      fun part hpart => ⟨(hchars part hpart).1, fun c hc => ((hchars part hpart).2 c hc).1⟩
    refine Text.findTopLevel?_append hsigns (Text.top_iff.2 ha.nestingAfter_outside)
      (fun c hc => hleft (hsign c hc).2) ?_
    intro part hpart
    obtain ⟨-, -, hcross⟩ := List.pairwise_append.1 horder
    obtain ⟨c, hc, hcsign⟩ := hcross part hpart sign List.mem_cons_self
    have hrel := ((hchars part (List.mem_append_left _ hpart)).2 c hc).2
    exact ⟨c, hc, hleft hrel, hcsign, fun hcb => hcsign (hbrel c hcb hrel)⟩
  unfold split?
  rw [hfound]
  simp [hlookup, Text.splitAtByte_utf8Length]

theorem answer_test {v w : Value} (hsplit : split? t = some (a, op, b))
    (ha : x.answer ((Argument.read a).value eval) p = (.ok v, q)) (hv : v.isError = false)
    (hb : x.answer ((Argument.read b).value eval) q = (.ok w, r)) (hw : w.isError = false) :
    x.answer (test eval t) p = (.ok (.ok (holds op (compareValues v w))), r) := by
  unfold test
  rw [hsplit]
  dsimp only
  rw [Context.answer_bind_of_ok ha, Context.answer_bind_of_ok hb]
  cases v with
  | error e => cases hv
  | _ =>
    cases w with
    | error e => cases hw
    | _ => rfl

theorem holds_numbers (op : Comparison) (y z : Float) :
    holds op (compareValues (.number y) (.number z)) = op.ofNumbers y z :=
  holds_compareNumbers op y z

/-- A number does not equal a text that it does not have and that is no number. -/
theorem holds_text {y : Float} {s : String} (hs : Number.parseText? s = none)
    (hne : Number.displayText y ≠ s) :
    holds .equal (compareValues (.number y) (.text s)) = false := by
  have hcompare : compareValues (.number y) (.text s) =
      some (compare (Number.displayText y) s) := by
    have hnone : comparable? (.text s) = none := hs
    unfold compareValues
    rw [hnone]
    rfl
  rw [hcompare]
  refine Bool.eq_false_iff.2 fun h => hne ?_
  have heq : compare (Number.displayText y) s = .eq := by simpa [holds] using h
  exact Std.LawfulEqOrd.eq_of_compare heq

end Condition

/-- One if the condition holds, and else zero. -/
def choiceOf (condition : Text) : Text := "IF(".toList ++ (condition ++ ", 1, 0)".toList)

section Choice

variable {o : Options}

theorem length_lt_choiceOf (c : Text) : c.length < (choiceOf c).length := by
  simp [choiceOf]
  omega

theorem splitArguments_choice (hc : Closed c) (hcomma : ',' ∉ c) :
    Text.splitArguments (c ++ ", 1, 0".toList) = [trim c, ['1'], ['0']] := by
  have hjoined : c ++ ", 1, 0".toList = Formula.joined [c, " 1".toList, " 0".toList] := by
    simp
  have hfree : Formula.CommaFree c := by
    rintro a b rfl
    exact absurd (by simp) hcomma
  have hparts : ∀ p ∈ [c, " 1".toList, " 0".toList], Text.Balanced p ∧ Formula.CommaFree p := by
    simp only [List.forall_mem_cons]
    exact ⟨⟨hc.balanced, hfree⟩, by decide, by decide, by simp⟩
  rw [hjoined, Formula.splitArguments_joined (by simp) (by simp) hparts]
  rfl

theorem wholeCall?_choiceOf (hc : Closed c) :
    Formula.wholeCall? (choiceOf c) = some (['I', 'F'], c ++ ", 1, 0".toList) := by
  have hrest : Closed ", 1, 0".toList := Text.closed_of_weight (by decide) (by simp [Text.weight])
  have hcall : Formula.wholeCall? (['I', 'F'] ++ '(' :: (c ++ ", 1, 0".toList ++ [')'])) =
      some (['I', 'F'], c ++ ", 1, 0".toList) :=
    Formula.wholeCall?_of_balanced (by decide) (by decide) (hc.append hrest).balanced
  rw [← hcall]
  simp [choiceOf]

theorem value_read_of_parse? {z : Float} (htrim : trim t = t) (hne : t ≠ [])
    (hrange : Range.read? t = none) (href : Reference.read? t = none)
    (hliteral : Text.literal? t = none) (hz : Number.parse? t = some z) :
    (Argument.read t).value eval = .done (.number z) := by
  have hkind : Argument.kindOf t = .number z := by
    unfold Argument.kindOf
    rw [if_neg hne, hrange, href, hliteral, hz]
  unfold Argument.value Argument.read
  rw [htrim, hkind]

theorem answer_choose {holds : Bool}
    (hc : x.answer (Condition.test eval (trim c)) p = (.ok (.ok holds), q)) :
    x.answer (LibraryFunction.choose.call o eval
      [Argument.read c, Argument.read ['1'], Argument.read ['0']]) p =
        (.ok (.number (if holds then 1 else 0)), q) := by
  have hresult : x.answer (LibraryFunction.choose.result o eval
      [Argument.read c, Argument.read ['1'], Argument.read ['0']]) p =
        (.ok (.number (if holds then 1 else 0)), q) := by
    refine (Context.answer_bind_of_ok hc).trans ?_
    cases holds with
    | true =>
      have hyes : (Argument.read ['1']).value eval = .done (.number 1) :=
        value_read_of_parse? rfl (by decide) rfl rfl rfl (by decide +kernel)
      exact congrArg (x.answer · q) hyes
    | false =>
      have hno : (Argument.read ['0']).value eval = .done (.number 0) :=
        value_read_of_parse? rfl (by decide) rfl rfl rfl (by decide +kernel)
      exact congrArg (x.answer · q) hno
  exact Context.answer_call rfl hresult (by cases holds <;> rfl)

theorem value_choiceOf (hc : Closed c) (hcomma : ',' ∉ c) (o : Options) :
    Formula.value o (choiceOf c) = LibraryFunction.choose.call o
      (fun s => if s.length < (choiceOf c).length then Formula.value o s else .fail .emptyFormula)
      [Argument.read (trim c), Argument.read ['1'], Argument.read ['0']] := by
  have htrim : trim (choiceOf c) = choiceOf c := by
    have hlast : choiceOf c = "IF(".toList ++ (c ++ ", 1, 0".toList) ++ [')'] := by
      simp [choiceOf]
    refine Text.trim_of_trimmed ⟨fun d hd => ?_, fun d hd => ?_⟩
    · obtain rfl := Option.some.inj hd
      rfl
    · rw [hlast, List.getLast?_concat] at hd
      obtain rfl := Option.some.inj hd
      rfl
  rw [Formula.value, Formula.valueWith, htrim, wholeCall?_choiceOf hc]
  dsimp only
  rw [if_neg (by simp [choiceOf]), if_pos (by decide), Formula.callNamed,
    splitArguments_choice hc hcomma]
  rfl

/-- A choice asks for its condition, whose parts are formulas, and then is one or zero. -/
theorem answer_choiceOf {holds : Bool} (hc : Closed c) (hcomma : ',' ∉ c)
    (htest : ∀ eval : Text → Query Value,
      (∀ s, s.length ≤ c.length → eval s = Formula.value x.options s) →
        x.answer (Condition.test eval (trim c)) p = (.ok (.ok holds), q)) :
    x.answer (Formula.value x.options (choiceOf c)) p =
      (.ok (.number (if holds then 1 else 0)), q) := by
  rw [value_choiceOf hc hcomma]
  refine answer_choose ?_
  rw [Text.trim_of_trimmed (Text.trimmed_trim c)]
  exact htest _ fun s hs => if_pos (Nat.lt_of_le_of_lt hs (length_lt_choiceOf c))

end Choice

end Spreadsheet
