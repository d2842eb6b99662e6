import Spreadsheet.Formula.Call
import Spreadsheet.Proofs.Text.Part

/-!
Calls as parts of formula text. The argument text of a call stands on its own, in a text that is
one call as well as in each call segment of a longer one.
-/
namespace Spreadsheet.Formula

open Text

variable {t w name args inner rest : Text} {before : Option Char} {q : Bool}

theorem splitName?_eq_some_iff : splitName? t = some (name, inner) ↔ t = name ++ '(' :: inner ∧
    (∀ c ∈ name, (c.isUpper || c.isDigit) = true) ∧
      ∃ c, name.head? = some c ∧ c.isUpper = true := by
  constructor
  · intro h
    refine ⟨splitName?_append h, ?_⟩
    unfold splitName? at h
    split at h
    · cases h
    · rename_i c r
      split at h
      · rename_i hc
        split at h
        · rename_i he
          obtain ⟨rfl, rfl⟩ := Prod.mk.inj (Option.some.inj h)
          have hname := (Prod.mk.inj he).1
          refine ⟨?_, c, ?_, hc⟩
          · rw [← hname]
            exact List.all_eq_true.1 List.all_takeWhile
          · rw [← hname, List.takeWhile_cons_of_pos (by simp [hc])]
            rfl
        · cases h
      · cases h
  · rintro ⟨rfl, hall, c, hc, hup⟩
    obtain ⟨r, rfl⟩ := List.head?_eq_some_iff.1 hc
    have htake : ('(' :: inner).takeWhile (fun c => c.isUpper || c.isDigit) = [] := rfl
    have hdrop : ('(' :: inner).dropWhile (fun c => c.isUpper || c.isDigit) = '(' :: inner := rfl
    have hsplit : splitWhile (fun c => c.isUpper || c.isDigit) (c :: r ++ '(' :: inner) =
        (c :: r, '(' :: inner) := by
      rw [splitWhile, List.takeWhile_append_of_pos hall, List.dropWhile_append_of_pos hall,
        htake, hdrop, List.append_nil]
    rw [List.cons_append] at hsplit ⊢
    simp only [splitName?, hup, if_true, hsplit]

theorem splitName?_append_right (h : splitName? t = some (name, inner)) (w : Text) :
    splitName? (t ++ w) = some (name, inner ++ w) := by
  obtain ⟨rfl, hname⟩ := splitName?_eq_some_iff.1 h
  exact splitName?_eq_some_iff.2 ⟨by simp, hname⟩

theorem quote_not_mem_name (h : splitName? t = some (name, inner)) : '"' ∉ name := by
  intro hq
  have := (splitName?_eq_some_iff.1 h).2.1 _ hq
  exact absurd this (by decide)

theorem quotedAfter_of_splitCall? (h : splitCall? inner = some (args, rest)) :
    quotedAfter false args = false := quotedAfter_of_splitClosing? h

/-- A call in a text: its name, its argument text, and what follows it. -/
theorem eq_of_splitName?_splitCall? (h : splitName? t = some (name, inner))
    (h' : splitCall? inner = some (args, rest)) : t = name ++ '(' :: args ++ ')' :: rest := by
  rw [splitName?_append h, splitCall?_append h']
  simp

theorem quotedAfter_call (h : splitName? t = some (name, inner))
    (h' : splitCall? inner = some (args, rest)) :
    quotedAfter false (name ++ '(' :: args ++ [')']) = false := by
  have hparen : quotedAfter (quotedAfter false name) ('(' :: args) = quotedAfter false args := by
    rw [quotedAfter_of_not_mem (quote_not_mem_name h)]
    rfl
  rw [quotedAfter_append, quotedAfter_append, hparen, quotedAfter_of_splitCall? h']
  rfl

/-- The argument text of each call segment stands between the parentheses of the call. -/
theorem exists_of_call_mem_segmentsFrom {known : Text → Bool}
    (h : Segment.call name args ∈ segmentsFrom known before q t) : ∃ a b,
      t = a ++ '(' :: args ++ ')' :: b ∧ quotedAfter q a = false := by
  have step {c : Char} {r : Text} {q q' : Bool} (hq : (if c = '"' then !q else q) = q')
      (ih : ∃ a b, r = a ++ '(' :: args ++ ')' :: b ∧ quotedAfter q' a = false) :
      ∃ a b, c :: r = a ++ '(' :: args ++ ')' :: b ∧ quotedAfter q a = false := by
    obtain ⟨a, b, hr, ha⟩ := ih
    exact ⟨c :: a, b, by rw [hr]; rfl, by rw [quotedAfter_cons, hq, ha]⟩
  fun_induction segmentsFrom known before q t with
  | case1 => cases h
  | case2 before q r ih =>
    have hmem := (List.mem_cons.1 h).resolve_left (by simp)
    exact step (if_pos rfl) (ih hmem)
  | case3 before q c r hc _ ih =>
    have hmem := (List.mem_cons.1 h).resolve_left (by simp)
    exact step (if_neg hc) (ih hmem)
  | case4 before q c r hc _ _ ih =>
    have hmem := (List.mem_cons.1 h).resolve_left (by simp)
    exact step (if_neg hc) (ih hmem)
  | case5 => simp at h
  | case6 before q c r hc hq name' inner hname _ args' rest hcall _ ih =>
    have hsplit := eq_of_splitName?_splitCall? hname hcall
    obtain ⟨rfl, -⟩ : q = false ∧ before.any isWord = false := by simpa using hq
    rcases List.mem_cons.1 h with he | hmem
    · obtain ⟨rfl, rfl⟩ := Segment.call.inj he
      exact ⟨name, rest, hsplit, quotedAfter_of_not_mem (quote_not_mem_name hname)⟩
    · obtain ⟨a, b, hr, ha⟩ := ih hmem
      refine ⟨name' ++ '(' :: args' ++ [')'] ++ a, b, by rw [hsplit, hr]; simp, ?_⟩
      rw [quotedAfter_append, quotedAfter_call hname hcall, ha]
  | case7 before q c r hc _ name' inner _ _ ih =>
    have hmem := (List.mem_cons.1 h).resolve_left (by simp)
    exact step (if_neg hc) (ih hmem)

theorem part_of_parenthesised {a b : Text} (ht : t = a ++ '(' :: args ++ ')' :: b)
    (ha : quotedAfter false a = false) : Part args t := by
  refine ⟨a ++ ['('], ')' :: b, by rw [ht]; simp, ?_, ?_, ?_⟩
  · rw [quotedAfter_append, ha]
    rfl
  · intro c hc
    rw [List.getLast?_concat] at hc
    obtain rfl := Option.some.inj hc
    decide
  · intro c hc
    obtain rfl := Option.some.inj hc
    decide

theorem part_of_call_mem_segments {known : Text → Bool}
    (h : Segment.call name args ∈ segments known t) : Part args t := by
  obtain ⟨a, b, ht, ha⟩ := exists_of_call_mem_segmentsFrom h
  exact part_of_parenthesised ht ha

theorem part_of_wholeCall? (h : wholeCall? t = some (name, args)) : Part args t := by
  obtain ⟨⟨name', r⟩, hcut, hcall⟩ := Option.bind_eq_some_iff.1 h
  obtain ⟨rfl, -⟩ := cutAt?_eq_some_iff.1 hcut
  dsimp only at hcall
  split at hcall
  · rename_i hname
    split at hcall
    · rename_i args' hsplit
      obtain ⟨rfl, rfl⟩ := Prod.mk.inj (Option.some.inj hcall)
      refine part_of_parenthesised (a := name') (b := []) ?_ (quotedAfter_of_not_mem fun hq => ?_)
      · rw [splitCall?_append hsplit]
        simp
      · unfold isCallName at hname
        cases name' with
        | nil => cases hq
        | cons c r =>
          simp only [Bool.and_eq_true, List.all_eq_true] at hname
          rcases List.mem_cons.1 hq with rfl | hq
          · exact absurd hname.1 (by decide)
          · exact absurd (hname.2 _ hq) (by decide)
    · cases hcall
  · cases hcall

end Spreadsheet.Formula
