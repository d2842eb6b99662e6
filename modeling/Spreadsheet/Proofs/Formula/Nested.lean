import Spreadsheet.Formula.Evaluate
import Spreadsheet.Proofs.Formula.Call
import Spreadsheet.Proofs.Library.Reads

/-!
The texts inside a formula are shorter than the formula. Whatever gives the values of texts is asked
only for the arguments of calls and for the sides of conditions among them, and these stand between
the parentheses of a call. So the value of a text comes from the values of shorter ones.
-/
namespace Spreadsheet

open Text (Part)

variable {eval eval' : Text → Query Value} {o : Options} {s t : Text} {n : Nat} {α β : Type}

theorem Text.Part.length_le (h : Part s t) : s.length ≤ t.length := by
  obtain ⟨a, b, rfl, -⟩ := h
  simp
  omega

/-- The evaluators are the same on texts that are no longer. -/
def Agree (n : Nat) (eval eval' : Text → Query Value) : Prop :=
  ∀ s : Text, s.length ≤ n → eval s = eval' s

theorem Agree.mono {m : Nat} (h : Agree n eval eval') (hm : m ≤ n) : Agree m eval eval' :=
  fun s hs => h s (hs.trans hm)

theorem Query.foldlM_congr {f g : β → α → Query β} {as : List α}
    (h : ∀ a ∈ as, ∀ b, f b a = g b a) (b : β) : as.foldlM f b = as.foldlM g b := by
  induction as generalizing b with
  | nil => rfl
  | cons a as ih =>
    obtain ⟨ha, has⟩ := List.forall_mem_cons.1 h
    simp only [List.foldlM_cons, ha, ih has]

namespace Argument

variable {a : Argument}

/-- The evaluators are the same on all that the argument may ask them for. -/
def Same (eval eval' : Text → Query Value) (a : Argument) : Prop := Agree a.text.length eval eval'

theorem same_read (h : Agree n eval eval') (hs : s.length ≤ n) : (read s).Same eval eval' :=
  h.mono ((Text.part_trim s).length_le.trans hs)

variable (h : a.Same eval eval')

include h

theorem Same.eval_text : eval a.text = eval' a.text := h _ (Nat.le_refl _)

theorem Same.value_eq : a.value eval = a.value eval' := by
  simp only [Argument.value, h.eval_text]

theorem Same.storedText_eq : a.storedText eval = a.storedText eval' := by
  simp only [Argument.storedText, h.value_eq]

theorem Same.foldValues_eq (f : β → Value → β) (b : β) :
    a.foldValues o eval f b = a.foldValues o eval' f b := by
  simp only [Argument.foldValues, h.value_eq]

theorem Same.foldContents_eq (f : β → Content → β) (b : β) :
    a.foldContents o eval f b = a.foldContents o eval' f b := by
  simp only [Argument.foldContents, h.storedText_eq]

theorem Same.numberValue_eq : a.numberValue eval = a.numberValue eval' := by
  simp only [Argument.numberValue, h.value_eq]

end Argument

open Argument (Same same_read)

theorem Condition.test_congr (h : Agree t.length eval eval') : test eval t = test eval' t := by
  unfold test
  split
  · rw [(same_read h (Nat.le_refl _)).value_eq]
  · rename_i left op right hsplit
    obtain ⟨hleft, hright⟩ := part_of_split? hsplit
    rw [(same_read h hleft.length_le).value_eq, (same_read h hright.length_le).value_eq]

namespace LibraryFunction

variable {args : List Argument} {a : Argument}

theorem foldValues_congr (h : ∀ a ∈ args, a.Same eval eval') (f : β → Value → β) (b : β) :
    foldValues o eval f b args = foldValues o eval' f b args :=
  Query.foldlM_congr (fun a ha => (h a ha).foldValues_eq f) b

theorem foldContents_congr (h : ∀ a ∈ args, a.Same eval eval') (f : β → Content → β) (b : β) :
    foldContents o eval f b args = foldContents o eval' f b args :=
  Query.foldlM_congr (fun a ha => (h a ha).foldContents_eq f) b

theorem chooseOf_congr {condition yes : Argument} {no : Option Argument}
    (hcondition : condition.Same eval eval') (hyes : yes.Same eval eval')
    (hno : ∀ a ∈ no, a.Same eval eval') :
    chooseOf eval condition yes no = chooseOf eval' condition yes no := by
  cases no with
  | none => simp only [chooseOf, Condition.test_congr hcondition, hyes.value_eq]
  | some a =>
    simp only [chooseOf, Condition.test_congr hcondition, hyes.value_eq, (hno a rfl).value_eq]

theorem roundOf_congr {places : Option Argument} (ha : a.Same eval eval')
    (hplaces : ∀ p ∈ places, p.Same eval eval') :
    roundOf eval a places = roundOf eval' a places := by
  cases places with
  | none => simp only [roundOf, ha.numberValue_eq]
  | some p => simp only [roundOf, ha.numberValue_eq, (hplaces p rfl).numberValue_eq]

theorem lookupOf_congr {needle table column : Argument} {flag : Option Argument}
    (hneedle : needle.Same eval eval') (hcolumn : column.Same eval eval')
    (hflag : ∀ a ∈ flag, a.Same eval eval') :
    lookupOf o eval needle table column flag = lookupOf o eval' needle table column flag := by
  have hmode : matchMode o eval flag = matchMode o eval' flag := by
    cases flag with
    | none => rfl
    | some a => simp only [matchMode, (hflag a rfl).value_eq]
  simp only [lookupOf, hneedle.value_eq, columnIndex, hcolumn.value_eq, lookupIn, hmode]

theorem ofText_congr (f : String → Value) (ha : a.Same eval eval') :
    ofText eval f a = ofText eval' f a := by
  simp only [ofText, ha.storedText_eq]

theorem result_congr (f : LibraryFunction) (h : ∀ a ∈ args, a.Same eval eval') :
    f.result o eval args = f.result o eval' args := by
  have hhead {a : Argument} {rest : List Argument} (ha : a ∈ rest.head?) : a ∈ rest :=
    List.mem_of_mem_head? ha
  unfold result
  split
  · simp only [averageOf, foldValues_congr h]
  · simp only [joinOf, foldContents_congr h]
  · simp only [countOf, foldContents_congr h]
  · simp only [extremeOf, foldValues_congr h]
  · simp only [extremeOf, foldValues_congr h]
  · simp only [sumOf, foldValues_congr h]
  · exact chooseOf_congr (h _ (by simp)) (h _ (by simp)) fun a ha => h a (by simp [hhead ha])
  · exact ofText_congr _ (h _ (by simp))
  · exact ofText_congr _ (h _ (by simp))
  · exact ofText_congr _ (h _ (by simp))
  · exact ofText_congr _ (h _ (by simp))
  · exact roundOf_congr (h _ (by simp)) fun p hp => h p (by simp [hhead hp])
  · exact lookupOf_congr (h _ (by simp)) (h _ (by simp)) fun a ha => h a (by simp [hhead ha])
  · rfl

end LibraryFunction

namespace Formula

theorem callNamed_congr {name args : Text} (h : Agree args.length eval eval') :
    callNamed o eval name args = callNamed o eval' name args := by
  have hsame : ∀ a ∈ (Text.splitArguments args).map Argument.read, a.Same eval eval' := by
    intro a ha
    obtain ⟨s, hs, rfl⟩ := List.mem_map.1 ha
    exact same_read h (Text.part_of_mem_splitArguments hs).length_le
  unfold callNamed
  split
  · rfl
  · simp only [LibraryFunction.call, LibraryFunction.result_congr _ hsame]

theorem length_lt_of_call_mem_segments {known : Text → Bool} {name args : Text}
    (h : Segment.call name args ∈ segments known t) : args.length < t.length := by
  obtain ⟨a, b, rfl, -⟩ := exists_of_call_mem_segmentsFrom h
  simp
  omega

theorem length_lt_of_wholeCall? {name args : Text} (h : wholeCall? t = some (name, args)) :
    args.length < t.length := by
  obtain ⟨⟨name', r⟩, hcut, hcall⟩ := Option.bind_eq_some_iff.1 h
  obtain ⟨rfl, -⟩ := Text.cutAt?_eq_some_iff.1 hcut
  dsimp only at hcall
  split at hcall
  · split at hcall
    · rename_i hsplit
      cases hcall
      rw [Text.splitCall?_append hsplit]
      simp
      omega
    · cases hcall
  · cases hcall

theorem expandSegments_congr {ss : List Segment}
    (h : ∀ name args, .call name args ∈ ss → Agree args.length eval eval') :
    expandSegments o eval ss = expandSegments o eval' ss := by
  induction ss with
  | nil => rfl
  | cons s ss ih =>
    have hs : s.expand o eval = s.expand o eval' := by
      cases s with
      | plain c => rfl
      | call name args => simp only [Segment.expand, callNamed_congr (h name args (by simp))]
      | unclosed name => rfl
    simp only [expandSegments, hs, ih fun name args ha => h name args (by simp [ha])]

theorem plainValue_congr (h : ∀ s : Text, s.length < t.length → eval s = eval' s) :
    plainValue o eval t = plainValue o eval' t := by
  have hcalls : expandCalls o eval t = expandCalls o eval' t :=
    expandSegments_congr fun name args ha s hs =>
      h s (Nat.lt_of_le_of_lt hs (length_lt_of_call_mem_segments ha))
  simp only [plainValue, expressionValue, hcalls]

/-- The value of a text asks for the values of shorter texts only. -/
theorem valueWith_congr (h : ∀ s : Text, s.length < t.length → eval s = eval' s) :
    valueWith o eval t = valueWith o eval' t := by
  have htrim : ∀ s : Text, s.length < (Text.trim t).length → eval s = eval' s := fun s hs =>
    h s (Nat.lt_of_lt_of_le hs (Text.part_trim t).length_le)
  have hplain : plainValue o eval (Text.trim t) = plainValue o eval' (Text.trim t) :=
    plainValue_congr htrim
  simp only [valueWith]
  split
  · rfl
  · split
    · rename_i name args hcall
      have hargs : callNamed o eval name args = callNamed o eval' name args :=
        callNamed_congr fun s hs => htrim s (Nat.lt_of_le_of_lt hs (length_lt_of_wholeCall? hcall))
      rw [hargs, hplain]
    · exact hplain

/-- Any evaluator that is right on shorter texts gives the value of a text. -/
theorem valueWith_eq_value (h : ∀ s : Text, s.length < t.length → eval s = value o s) :
    valueWith o eval t = value o t := by
  rw [value]
  refine valueWith_congr fun s hs => ?_
  rw [if_pos hs, h s hs]

end Formula

end Spreadsheet
