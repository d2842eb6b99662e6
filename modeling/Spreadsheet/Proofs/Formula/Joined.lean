import Mathlib.Data.List.Forall2
import Spreadsheet.Formula.Call
import Spreadsheet.Proofs.Text.Closed

/-!
Calls put together from their arguments. A text that can stand as an argument, with blanks around it
or not, is found again in the list of arguments, and the list as a whole between the parentheses of
the call. The search for the closing parenthesis and the cutting at commas agree on where a literal
or a call inside an argument ends.
-/
namespace Spreadsheet.Formula

open Text

variable {s t : Text} {args parts : List Text} {k : Nesting}

section Argument

/-- No comma of the text is at top level. -/
def CommaFree (t : Text) : Prop :=
  ∀ a b, t = a ++ ',' :: b → (nestingAfter .outside a).isTop = false

instance (t : Text) : Decidable (CommaFree t) :=
  decidable_of_iff _ (forall_append_cons_iff (P := fun a => (nestingAfter .outside a).isTop = false)
    (c := ',') (t := t)).symm

/-- The text can stand as an argument: there are no blanks around it, its literals and parentheses
are closed, and no comma is at top level. -/
structure IsArgument (t : Text) : Prop where
  trim_eq : trim t = t
  balanced : Balanced t
  commaFree : CommaFree t

instance (t : Text) : Decidable (IsArgument t) :=
  decidable_of_iff (trim t = t ∧ Balanced t ∧ CommaFree t)
    ⟨fun ⟨h, h', h''⟩ => ⟨h, h', h''⟩, fun h => ⟨h.trim_eq, h.balanced, h.commaFree⟩⟩

/-- The second text is the first one with blanks around it. -/
def Padded (s t : Text) : Prop :=
  ∃ a b, t = a ++ (s ++ b) ∧ (∀ c ∈ a, isBlank c = true) ∧ ∀ c ∈ b, isBlank c = true

theorem nestingAfter_of_blank (h : ∀ c ∈ t, isBlank c = true) : nestingAfter k t = k := by
  refine nestingAfter_of_not_mem ?_ ?_ ?_ <;>
  · intro hc
    exact absurd (h _ hc) (by decide)

theorem balanced_of_blank (h : ∀ c ∈ t, isBlank c = true) : Balanced t where
  closes := by
    rintro a b rfl
    exact absurd (h ')' (by simp)) (by decide)
  ends := nestingAfter_of_blank h

theorem commaFree_of_blank (h : ∀ c ∈ t, isBlank c = true) : CommaFree t := by
  rintro a b rfl
  exact absurd (h ',' (by simp)) (by decide)

theorem CommaFree.append (hs : CommaFree s) (hends : nestingAfter .outside s = .outside)
    (ht : CommaFree t) : CommaFree (s ++ t) :=
  forall_append_eq (P := (·.isTop = false)) hs hends ht

theorem trim_of_blank (h : ∀ c ∈ t, isBlank c = true) : trim t = [] := by
  obtain ⟨a, b, ht, -, -⟩ := exists_trim t
  cases htrim : trim t with
  | nil => rfl
  | cons c w =>
    have hblank : isBlank c = true := h c (by rw [ht, htrim]; simp)
    rw [(trimmed_trim t).head c (by rw [htrim]; rfl)] at hblank
    cases hblank

/-- The blanks around a text are trimmed, and neither nest nor divide. -/
theorem Padded.spec (h : Padded s t) (hs : IsArgument s) :
    trim t = s ∧ Balanced t ∧ CommaFree t := by
  obtain ⟨a, b, rfl, ha, hb⟩ := h
  refine ⟨?_, ?_, ?_⟩
  · by_cases hne : s = []
    · subst s
      refine trim_of_blank fun c hc => ?_
      rcases List.mem_append.1 hc with hc | hc
      · exact ha c hc
      · exact hb c hc
    · exact trim_append ha hb (hs.trim_eq ▸ trimmed_trim s) hne
  · exact (balanced_of_blank ha).append (hs.balanced.append (balanced_of_blank hb))
  · have hright := hs.commaFree.append hs.balanced.ends (commaFree_of_blank hb)
    exact (commaFree_of_blank ha).append (nestingAfter_of_blank ha) hright

end Argument

section Joined

/-- The texts with commas between them. -/
def joined (parts : List Text) : Text := [','].intercalate parts

@[simp] theorem joined_singleton (t : Text) : joined [t] = t := List.intercalate_singleton

@[simp] theorem joined_cons_cons (s t : Text) (parts : List Text) :
    joined (s :: t :: parts) = s ++ ([','] ++ joined (t :: parts)) := by
  rw [joined, List.intercalate_cons_cons, List.append_assoc]
  rfl

theorem balanced_comma : Balanced [','] := by decide

theorem balanced_joined (h : ∀ p ∈ parts, Balanced p) : Balanced (joined parts) := by
  induction parts with
  | nil => exact balanced_of_blank (by simp [joined])
  | cons p parts ih =>
    obtain ⟨hp, hparts⟩ := List.forall_mem_cons.1 h
    cases parts with
    | nil =>
      rw [joined_singleton]
      exact hp
    | cons q parts =>
      rw [joined_cons_cons]
      exact hp.append (balanced_comma.append (ih hparts))

/-- Cutting at the commas at top level gives the parts that were joined. -/
theorem splitFrom_joined (hne : parts ≠ []) (h : ∀ p ∈ parts, Balanced p ∧ CommaFree p) :
    splitFrom .outside (joined parts) = parts := by
  induction parts with
  | nil => exact absurd rfl hne
  | cons p parts ih =>
    obtain ⟨⟨hbalanced, hfree⟩, hparts⟩ := List.forall_mem_cons.1 h
    cases parts with
    | nil =>
      have hcut := splitFrom_append_of_isTop hfree []
      rw [hbalanced.ends, List.append_nil] at hcut
      rw [joined_singleton, hcut]
      simp [splitFrom]
    | cons q parts =>
      have hcomma : splitFrom .outside ([','] ++ joined (q :: parts)) = [] :: q :: parts := by
        rw [List.singleton_append, splitFrom, if_pos ⟨rfl, rfl⟩, ih (by simp) hparts]
      rw [joined_cons_cons, splitFrom_append_of_isTop hfree, hbalanced.ends, hcomma]
      simp

theorem map_trim_of_padded (hparts : List.Forall₂ Padded args parts)
    (hargs : ∀ s ∈ args, IsArgument s) :
    parts.map trim = args ∧ ∀ p ∈ parts, Balanced p ∧ CommaFree p := by
  induction hparts with
  | nil => exact ⟨rfl, by simp⟩
  | @cons s p args parts hp _ ih =>
    obtain ⟨hs, hargs⟩ := List.forall_mem_cons.1 hargs
    obtain ⟨htrim, hbalanced, hfree⟩ := hp.spec hs
    obtain ⟨hmap, hall⟩ := ih hargs
    exact ⟨by rw [List.map_cons, htrim, hmap],
      List.forall_mem_cons.2 ⟨⟨hbalanced, hfree⟩, hall⟩⟩

theorem trim_ne_nil_of_mem {c : Char} (hc : c ∈ t) (hblank : isBlank c = false) : trim t ≠ [] := by
  obtain ⟨a, b, ht, ha, hb⟩ := exists_trim t
  intro htrim
  rw [ht, htrim, List.append_nil] at hc
  rcases List.mem_append.1 hc with hc | hc
  · rw [ha c hc] at hblank
    cases hblank
  · rw [hb c hc] at hblank
    cases hblank

theorem trim_joined_ne_nil (hne : parts ≠ []) (hsingle : parts.map trim ≠ [[]]) :
    trim (joined parts) ≠ [] := by
  obtain ⟨p, parts, rfl⟩ := List.exists_cons_of_ne_nil hne
  cases parts with
  | nil =>
    rw [joined_singleton]
    intro htrim
    exact hsingle (by rw [List.map_singleton, htrim])
  | cons q parts => exact trim_ne_nil_of_mem (c := ',') (by simp) (by decide)

theorem splitArguments_joined (hne : parts ≠ []) (hsingle : parts.map trim ≠ [[]])
    (h : ∀ p ∈ parts, Balanced p ∧ CommaFree p) :
    splitArguments (joined parts) = parts.map trim := by
  rw [splitArguments, if_neg (trim_joined_ne_nil hne hsingle), splitFrom_joined hne h]

end Joined

theorem wholeCall?_of_balanced {name args : Text} (hname : isCallName name = true)
    (hparen : '(' ∉ name) (hargs : Balanced args) :
    wholeCall? (name ++ '(' :: (args ++ [')'])) = some (name, args) := by
  have hcut : cutAt? '(' (name ++ '(' :: (args ++ [')'])) = some (name, args ++ [')']) :=
    cutAt?_eq_some_iff.2 ⟨rfl, hparen⟩
  rw [wholeCall?, hcut, Option.bind_eq_bind, Option.bind_some]
  dsimp only
  rw [if_pos hname, hargs.splitCall? []]

/-- A call with its arguments joined by commas is read as its name and its argument text, and the
argument text as the list of the arguments, without the blanks around them. -/
theorem wholeCall?_joined {c : Char} {w : Text} (hc : c.isAlpha = true)
    (hname : ∀ d ∈ w, d.isAlphanum = true ∨ d = '_') (hargs : ∀ s ∈ args, IsArgument s)
    (hne : args ≠ []) (hsingle : args ≠ [[]]) (hparts : List.Forall₂ Padded args parts) :
    wholeCall? (c :: w ++ '(' :: (joined parts ++ [')'])) = some (c :: w, joined parts) ∧
      splitArguments (joined parts) = args := by
  obtain ⟨rfl, hspec⟩ := map_trim_of_padded hparts hargs
  have hcall : isCallName (c :: w) = true := by
    simpa [isCallName, hc] using hname
  have hparen : '(' ∉ c :: w := by
    rw [List.mem_cons, not_or]
    refine ⟨?_, fun hmem => ?_⟩
    · rintro rfl
      exact absurd hc (by decide)
    · exact absurd (hname _ hmem) (by decide)
  refine ⟨wholeCall?_of_balanced hcall hparen (balanced_joined fun p hp => (hspec p hp).1),
    splitArguments_joined ?_ hsingle hspec⟩
  rintro rfl
  exact hne rfl

/-- Commas, parentheses and doubled quotes inside literals, a call with arguments of its own, and an
empty argument. -/
def choiceArguments : List Text :=
  ["A1>0".toList, "\"a,)\"\"(\"".toList, "SUM(B1,(2))&\")\"".toList, []]

theorem wholeCall?_joined_choice :
    (∀ s ∈ choiceArguments, IsArgument s) ∧
      wholeCall? "IF_2(A1>0 , \"a,)\"\"(\",SUM(B1,(2))&\")\",\t)".toList =
        some ("IF_2".toList, "A1>0 , \"a,)\"\"(\",SUM(B1,(2))&\")\",\t".toList) ∧
      splitArguments "A1>0 , \"a,)\"\"(\",SUM(B1,(2))&\")\",\t".toList = choiceArguments := by
  have hargs : ∀ s ∈ choiceArguments, IsArgument s := by decide +kernel
  have hblank {a : Text} (h : a.all isBlank = true) : ∀ c ∈ a, isBlank c = true :=
    List.all_eq_true.1 h
  have hparts : List.Forall₂ Padded choiceArguments
      ["A1>0 ".toList, " \"a,)\"\"(\"".toList, "SUM(B1,(2))&\")\"".toList, ['\t']] :=
    .cons ⟨[], [' '], by decide +kernel, hblank rfl, hblank rfl⟩ <|
      .cons ⟨[' '], [], by decide +kernel, hblank rfl, hblank rfl⟩ <|
        .cons ⟨[], [], by decide +kernel, hblank rfl, hblank rfl⟩ <|
          .cons ⟨['\t'], [], by decide +kernel, hblank rfl, hblank rfl⟩ .nil
  have hname : ∀ d ∈ ['F', '_', '2'], d.isAlphanum = true ∨ d = '_' := by
    simp only [List.forall_mem_cons, List.not_mem_nil, false_implies, implies_true]
    decide
  exact ⟨hargs, wholeCall?_joined (c := 'I') (by decide) hname hargs (by decide) (by decide) hparts⟩

end Spreadsheet.Formula
