import Spreadsheet.Proofs.Text.TopLevel

/-!
The search for a sign at top level. It looks for the sign in a copy of the text in which literals and
parenthesised parts are blanked. Main statement: the blanking neither makes nor hides a sign outside
them, so that the search finds the first of the signs that stands there, where it first stands.
-/
namespace Spreadsheet.Text

variable {s : Nesting} {c : Char} {t a b part sign : Text} {signs : List Text} {n : Nat}

section Shown

/-- What a character shows of itself to a search at top level. -/
def shownAt (s : Nesting) (c : Char) : Text :=
  if c = '"' then (if s.depth = 0 then ['"'] else [' '])
  else if s.quoted then blanked c
  else if c = '(' ∨ c = ')' then [' ']
  else if s.depth = 0 then [c] else blanked c

/-- What a text shows of itself to a search at top level. -/
def shown (s : Nesting) : Text → Text
  | [] => []
  | c :: r => shownAt s c ++ shown (s.step c) r

theorem hideFrom_blanks (depth n : Nat) (t : Text) :
    hideFrom depth (List.replicate n ' ' ++ t) = List.replicate n ' ' ++ hideFrom depth t := by
  induction n with
  | zero => rfl
  | succ n ih =>
    have hblank : blanked ' ' = [' '] := rfl
    rw [List.replicate_succ, List.cons_append, hideFrom, ih]
    simp [hblank]

theorem hideFrom_maskFrom (s : Nesting) (t : Text) :
    hideFrom s.depth (maskFrom s.quoted t) = shown s t := by
  induction t generalizing s with
  | nil => rfl
  | cons c r ih =>
    have hblank : blanked '"' = [' '] := rfl
    obtain ⟨quoted, depth⟩ := s
    rw [maskFrom, shown, shownAt, ← ih]
    by_cases hq : c = '"'
    · subst c
      simp [hideFrom, Nesting.step, hblank]
    · by_cases hquoted : quoted = true
      · subst quoted
        simp only [hq, Nesting.step, if_false, if_true]
        exact hideFrom_blanks depth _ _
      · by_cases ho : c = '('
        · subst c
          simp [hideFrom, Nesting.step, hquoted]
        · by_cases hc : c = ')'
          · subst c
            simp [hideFrom, Nesting.step, hquoted]
          · simp [hideFrom, Nesting.step, hquoted, hq, ho, hc]

theorem topLevel_eq_shown (t : Text) : topLevel t = shown .outside t := hideFrom_maskFrom .outside t

/-- A character that can be a part of a sign. -/
def isSign (c : Char) : Bool := !(c == ' ' || c == '"' || c == '(' || c == ')')

theorem shownAt_eq (s : Nesting) (c : Char) :
    (shownAt s c = [c] ∧ s.isTop = true ∧ isSign c = true) ∨
      ∃ d, isSign d = false ∧ shownAt s c = List.replicate c.utf8Size d := by
  obtain ⟨quoted, depth⟩ := s
  unfold shownAt
  by_cases hq : c = '"'
  · subst c
    by_cases hd : depth = 0
    · exact .inr ⟨'"', rfl, by rw [if_pos rfl, if_pos hd]; rfl⟩
    · exact .inr ⟨' ', rfl, by rw [if_pos rfl, if_neg hd]; rfl⟩
  · by_cases hquoted : quoted = true
    · exact .inr ⟨' ', rfl, by simp [hq, hquoted, blanked]⟩
    · by_cases hp : c = '(' ∨ c = ')'
      · refine .inr ⟨' ', rfl, ?_⟩
        rw [if_neg hq, if_neg hquoted, if_pos hp]
        rcases hp with rfl | rfl <;> rfl
      · by_cases hd : depth = 0
        · by_cases hb : c = ' '
          · subst c
            exact .inr ⟨' ', rfl, by simp [hquoted, hd]⟩
          · refine .inl ⟨by simp [hq, hquoted, hp, hd], by simp [Nesting.isTop, hquoted, hd], ?_⟩
            rw [not_or] at hp
            simp [isSign, hq, hb, hp]
        · exact .inr ⟨' ', rfl, by simp [hq, hquoted, hp, hd, blanked]⟩

theorem step_of_isSign {s : Nesting} (h : isSign c = true) : s.step c = s := by
  simp only [isSign, Bool.not_eq_true', Bool.or_eq_false_iff, beq_eq_false_iff_ne] at h
  simp [Nesting.step, h]

/-- A character that shows a character of a sign is that character itself, at top level. -/
theorem eq_of_mem_shownAt {p : Char} (hp : isSign p = true) (h : p ∈ shownAt s c) :
    shownAt s c = [p] ∧ s.isTop = true := by
  rcases shownAt_eq s c with ⟨hs, htop, -⟩ | ⟨d, hd, hs⟩
  · rw [hs, List.mem_singleton] at h
    rw [h]
    exact ⟨hs, htop⟩
  · rw [hs] at h
    rw [← List.eq_of_mem_replicate h, hp] at hd
    cases hd

/-- What the search sees at the start of a text is what stands there. -/
theorem exists_of_isPrefixOf_shown (hne : part ≠ []) (hpart : ∀ c ∈ part, isSign c = true)
    (h : part <+: shown s t) : s.isTop = true ∧ ∃ b, t = part ++ b := by
  induction part generalizing t with
  | nil => exact absurd rfl hne
  | cons p part ih =>
    obtain ⟨hp, hpart⟩ := List.forall_mem_cons.1 hpart
    cases t with
    | nil => exact absurd h (by simp [shown])
    | cons c r =>
      rcases shownAt_eq s c with ⟨hs, htop, hsign⟩ | ⟨d, hd, hs⟩
      · rw [shown, hs, step_of_isSign hsign, List.singleton_append, List.cons_prefix_cons] at h
        obtain ⟨rfl, h⟩ := h
        by_cases hnil : part = []
        · subst part
          exact ⟨htop, r, rfl⟩
        · obtain ⟨-, b, rfl⟩ := ih hnil hpart h
          exact ⟨htop, b, rfl⟩
      · obtain ⟨k, hk⟩ : ∃ k, c.utf8Size = k + 1 :=
          ⟨c.utf8Size - 1, by have := c.utf8Size_pos; omega⟩
        rw [shown, hs, hk, List.replicate_succ, List.cons_append, List.cons_prefix_cons] at h
        rw [h.1, hd] at hp
        cases hp

theorem shown_append (s : Nesting) (a b : Text) :
    shown s (a ++ b) = shown s a ++ shown (nestingAfter s a) b := by
  induction a generalizing s with
  | nil => rfl
  | cons c a ih => rw [List.cons_append, shown, ih, shown, nestingAfter_cons, List.append_assoc]

theorem shownAt_of_isSign (hs : s.isTop = true) (hc : isSign c = true) : shownAt s c = [c] := by
  simp only [isSign, Bool.not_eq_true', Bool.or_eq_false_iff, beq_eq_false_iff_ne] at hc
  simp only [Nesting.isTop, Bool.and_eq_true, Bool.not_eq_true', beq_iff_eq] at hs
  simp [shownAt, hc, hs]

theorem shown_of_isSign (hs : s.isTop = true) (h : ∀ c ∈ part, isSign c = true) :
    shown s part = part := by
  induction part with
  | nil => rfl
  | cons c part ih =>
    obtain ⟨hc, hpart⟩ := List.forall_mem_cons.1 h
    rw [shown, shownAt_of_isSign hs hc, step_of_isSign hc, ih hpart, List.singleton_append]

theorem utf8Length_replicate (n : Nat) (c : Char) :
    utf8Length (List.replicate n c) = n * c.utf8Size := by
  induction n with
  | zero => simp
  | succ n ih => rw [List.replicate_succ, utf8Length_cons, ih, Nat.succ_mul, Nat.add_comm]

theorem utf8Size_of_not_isSign (h : isSign c = false) : c.utf8Size = 1 := by
  simp only [isSign, Bool.not_eq_false', Bool.or_eq_true, beq_iff_eq] at h
  rcases h with ((rfl | rfl) | rfl) | rfl <;> rfl

theorem utf8Length_shownAt (s : Nesting) (c : Char) : utf8Length (shownAt s c) = c.utf8Size := by
  rcases shownAt_eq s c with ⟨hs, -, -⟩ | ⟨d, hd, hs⟩
  · rw [hs, utf8Length_cons, utf8Length_nil, Nat.add_zero]
  · rw [hs, utf8Length_replicate, utf8Size_of_not_isSign hd, Nat.mul_one]

theorem utf8Length_shown (s : Nesting) (t : Text) : utf8Length (shown s t) = utf8Length t := by
  induction t generalizing s with
  | nil => rfl
  | cons c t ih => rw [shown, utf8Length_append, ih, utf8Length_shownAt, utf8Length_cons]

end Shown

section Find

/-- The part stands in the text at the byte offset. -/
def OccursAt (t : Text) (n : Nat) (part : Text) : Prop :=
  ∃ a b, t = a ++ (part ++ b) ∧ utf8Length a = n

theorem occursAt_nil : OccursAt [] n part ↔ part = [] ∧ n = 0 := by
  constructor
  · rintro ⟨a, b, h, rfl⟩
    obtain ⟨rfl, hrest⟩ := List.append_eq_nil_iff.1 h.symm
    exact ⟨(List.append_eq_nil_iff.1 hrest).1, rfl⟩
  · rintro ⟨rfl, rfl⟩
    exact ⟨[], [], rfl, rfl⟩

theorem occursAt_cons : OccursAt (c :: t) n part ↔
    (part <+: c :: t ∧ n = 0) ∨ ∃ k, OccursAt t k part ∧ n = c.utf8Size + k := by
  constructor
  · rintro ⟨a, b, h, rfl⟩
    cases a with
    | nil => exact .inl ⟨⟨b, h.symm⟩, rfl⟩
    | cons d a =>
      obtain ⟨rfl, htail⟩ := List.cons.inj h
      exact .inr ⟨utf8Length a, ⟨a, b, htail, rfl⟩, rfl⟩
  · rintro (⟨⟨b, hb⟩, rfl⟩ | ⟨k, ⟨a, b, rfl, rfl⟩, rfl⟩)
    · exact ⟨[], b, hb.symm, rfl⟩
    · exact ⟨c :: a, b, rfl, rfl⟩

theorem findPart?_cons : findPart? part (c :: t) =
    if part <+: c :: t then some 0 else (findPart? part t).map (c.utf8Size + ·) := by
  simp only [findPart?, List.isPrefixOf_iff_prefix]

theorem occursAt_of_findPart? (h : findPart? part t = some n) : OccursAt t n part := by
  induction t generalizing n with
  | nil =>
    obtain ⟨hpart, hn⟩ := Option.ite_none_right_eq_some.1 h
    exact occursAt_nil.2 ⟨hpart, (Option.some.inj hn).symm⟩
  | cons c t ih =>
    rw [findPart?_cons] at h
    split at h
    · rename_i hstarts
      exact occursAt_cons.2 (.inl ⟨hstarts, (Option.some.inj h).symm⟩)
    · obtain ⟨k, hk, rfl⟩ := Option.map_eq_some_iff.1 h
      exact occursAt_cons.2 (.inr ⟨k, ih hk, rfl⟩)

theorem exists_findPart?_of_occursAt (h : OccursAt t n part) :
    ∃ m ≤ n, findPart? part t = some m := by
  induction t generalizing n with
  | nil =>
    obtain ⟨rfl, rfl⟩ := occursAt_nil.1 h
    exact ⟨0, Nat.le_refl 0, rfl⟩
  | cons c t ih =>
    rw [findPart?_cons]
    split
    · exact ⟨0, Nat.zero_le n, rfl⟩
    · rename_i hstarts
      obtain ⟨hp, -⟩ | ⟨k, hk, rfl⟩ := occursAt_cons.1 h
      · exact absurd hp hstarts
      · obtain ⟨m, hm, hfind⟩ := ih hk
        exact ⟨c.utf8Size + m, Nat.add_le_add_left hm _, by rw [hfind, Option.map_some]⟩

theorem findPart?_eq_some_iff :
    findPart? part t = some n ↔ OccursAt t n part ∧ ∀ m < n, ¬OccursAt t m part := by
  constructor
  · intro h
    refine ⟨occursAt_of_findPart? h, fun m hm hocc => ?_⟩
    obtain ⟨k, hk, hfind⟩ := exists_findPart?_of_occursAt hocc
    obtain rfl := Option.some.inj (h.symm.trans hfind)
    omega
  · rintro ⟨hocc, hfirst⟩
    obtain ⟨m, hm, hfind⟩ := exists_findPart?_of_occursAt hocc
    have hmn : ¬m < n := fun hlt => hfirst m hlt (occursAt_of_findPart? hfind)
    rwa [Nat.le_antisymm hm (Nat.le_of_not_lt hmn)] at hfind

theorem findPart?_eq_none_iff : findPart? part t = none ↔ ∀ n, ¬OccursAt t n part := by
  constructor
  · intro h n hocc
    obtain ⟨m, -, hfind⟩ := exists_findPart?_of_occursAt hocc
    rw [h] at hfind
    cases hfind
  · intro h
    refine Option.eq_none_iff_forall_ne_some.2 fun n hn => ?_
    exact h n (occursAt_of_findPart? hn)

end Find

section TopLevel

/-- Blanking neither makes nor hides a sign: what the search sees of one is where it stands with
nothing open before it. -/
theorem occursAt_shown_iff (hne : part ≠ []) (hpart : ∀ c ∈ part, isSign c = true) :
    OccursAt (shown s t) n part ↔
      ∃ a b, t = a ++ (part ++ b) ∧ utf8Length a = n ∧ (nestingAfter s a).isTop = true := by
  constructor
  · rintro ⟨x, y, h, rfl⟩
    induction t generalizing s x with
    | nil =>
      have hnil := (List.append_eq_nil_iff.1 h.symm).2
      exact absurd (List.append_eq_nil_iff.1 hnil).1 hne
    | cons c t ih =>
      have hlater (z : Text) (hx : x = shownAt s c ++ z)
          (hz : shown (s.step c) t = z ++ (part ++ y)) : ∃ a b, c :: t = a ++ (part ++ b) ∧
            utf8Length a = utf8Length x ∧ (nestingAfter s a).isTop = true := by
        obtain ⟨a, b, ht, hlength, htop⟩ := ih z hz
        refine ⟨c :: a, b, by rw [ht]; rfl, ?_, htop⟩
        rw [hx, utf8Length_append, utf8Length_shownAt, utf8Length_cons, hlength]
      rw [shown] at h
      rcases List.append_eq_append_iff.1 h with ⟨z, hx, hrest⟩ | ⟨z, hc, hrest⟩
      · exact hlater z hx hrest
      · obtain ⟨p, ps, rfl⟩ := List.exists_cons_of_ne_nil hne
        cases z with
        | nil => exact hlater [] (by simpa using hc.symm) (by simpa using hrest.symm)
        | cons d z =>
          obtain ⟨rfl, -⟩ := List.cons.inj hrest
          obtain ⟨hs, htop⟩ := eq_of_mem_shownAt (hpart p List.mem_cons_self)
            (by rw [hc]; exact List.mem_append_right x List.mem_cons_self)
          obtain rfl : x = [] := by
            rw [hs] at hc
            exact (List.append_eq_singleton_iff.1 hc.symm).elim (·.1) fun h => nomatch h.2
          have hstarts : p :: ps <+: shown s (c :: t) := ⟨y, h.symm⟩
          obtain ⟨-, b, hb⟩ := exists_of_isPrefixOf_shown hne hpart hstarts
          exact ⟨[], b, hb, rfl, htop⟩
  · rintro ⟨a, b, rfl, rfl, htop⟩
    refine ⟨shown s a, shown (nestingAfter (nestingAfter s a) part) b, ?_, utf8Length_shown s a⟩
    rw [shown_append, shown_append, shown_of_isSign htop hpart]

theorem Nesting.isTop_iff : s.isTop = true ↔ s = .outside := by
  obtain ⟨quoted, depth⟩ := s
  simp [isTop, outside]

theorem nestingAfter_of_isSign (h : ∀ c ∈ t, isSign c = true) : nestingAfter s t = s := by
  have hnot {c : Char} (hc : isSign c = false) : c ∉ t := by
    intro hmem
    rw [h c hmem] at hc
    cases hc
  exact nestingAfter_of_not_mem (hnot rfl) (hnot rfl) (hnot rfl)

/-- The part stands in the text at the byte offset, and each of its characters outside string literals
and parentheses. -/
def StandsAt (t : Text) (n : Nat) (part : Text) : Prop :=
  ∃ a b, t = a ++ (part ++ b) ∧ utf8Length a = n ∧ ∀ x c y, part = x ++ c :: y → Top (a ++ x)

theorem standsAt_iff (hne : part ≠ []) (hpart : ∀ c ∈ part, isSign c = true) :
    StandsAt t n part ↔ ∃ a b, t = a ++ (part ++ b) ∧ utf8Length a = n ∧ Top a := by
  constructor
  · rintro ⟨a, b, ht, hlength, htop⟩
    obtain ⟨p, ps, rfl⟩ := List.exists_cons_of_ne_nil hne
    have ha := htop [] p ps rfl
    rw [List.append_nil] at ha
    exact ⟨a, b, ht, hlength, ha⟩
  · rintro ⟨a, b, ht, hlength, htop⟩
    refine ⟨a, b, ht, hlength, ?_⟩
    rintro x c y rfl
    have hx : ∀ c ∈ x, isSign c = true := fun c hc => hpart c (List.mem_append_left _ hc)
    rw [top_iff, nestingAfter_append, top_iff.1 htop, nestingAfter_of_isSign hx]

theorem occursAt_topLevel_iff (hne : part ≠ []) (hpart : ∀ c ∈ part, isSign c = true) :
    OccursAt (topLevel t) n part ↔ StandsAt t n part := by
  rw [topLevel_eq_shown, occursAt_shown_iff hne hpart, standsAt_iff hne hpart]
  simp only [Nesting.isTop_iff, top_iff]

theorem findTopLevel?_eq_some_iff (hsigns : ∀ sign ∈ signs, sign ≠ [] ∧ ∀ c ∈ sign, isSign c = true) :
    findTopLevel? t signs = some (n, sign) ↔ ∃ before after, signs = before ++ sign :: after ∧
      StandsAt t n sign ∧ (∀ m < n, ¬StandsAt t m sign) ∧
      ∀ other ∈ before, ∀ m, ¬StandsAt t m other := by
  have hstands {sign : Text} {n : Nat} (hmem : sign ∈ signs) :
      OccursAt (topLevel t) n sign ↔ StandsAt t n sign :=
    occursAt_topLevel_iff (hsigns sign hmem).1 (hsigns sign hmem).2
  unfold findTopLevel?
  simp only [List.findSome?_eq_some_iff, Option.map_eq_some_iff, Option.map_eq_none_iff,
    Prod.mk.injEq, findPart?_eq_some_iff, findPart?_eq_none_iff]
  constructor
  · rintro ⟨before, sign, after, rfl, ⟨n, ⟨hocc, hfirst⟩, rfl, rfl⟩, hbefore⟩
    refine ⟨before, after, rfl, (hstands (by simp)).1 hocc, fun m hm h => ?_, fun other ho m h => ?_⟩
    · exact hfirst m hm ((hstands (by simp)).2 h)
    · exact hbefore other ho m ((hstands (by simp [ho])).2 h)
  · rintro ⟨before, after, rfl, hstand, hfirst, hbefore⟩
    refine ⟨before, sign, after, rfl, ⟨n, ⟨(hstands (by simp)).2 hstand, fun m hm h => ?_⟩, rfl, rfl⟩,
      fun other ho m h => ?_⟩
    · exact hfirst m hm ((hstands (by simp)).1 h)
    · exact hbefore other ho m ((hstands (by simp [ho])).1 h)

theorem findTopLevel?_eq_none_iff (hsigns : ∀ sign ∈ signs, sign ≠ [] ∧ ∀ c ∈ sign, isSign c = true) :
    findTopLevel? t signs = none ↔ ∀ sign ∈ signs, ∀ n, ¬StandsAt t n sign := by
  unfold findTopLevel?
  simp only [List.findSome?_eq_none_iff, Option.map_eq_none_iff, findPart?_eq_none_iff]
  refine forall₂_congr fun sign hmem => forall_congr' fun n => not_congr ?_
  exact occursAt_topLevel_iff (hsigns sign hmem).1 (hsigns sign hmem).2

/-- A closing parenthesis that has nothing to close changes no place behind it. -/
theorem top_stray_iff (h : Top a) : Top (a ++ ')' :: b) ↔ Top (a ++ b) := by
  have hstep : Nesting.outside.step ')' = .outside := rfl
  rw [top_iff, top_iff, nestingAfter_append, nestingAfter_append, top_iff.1 h, nestingAfter_cons,
    hstep]

theorem exists_of_findTopLevel? (hsigns : ∀ sign ∈ signs, sign ≠ [] ∧ ∀ c ∈ sign, isSign c = true)
    (h : findTopLevel? t signs = some (n, part)) : part ∈ signs ∧
      ∃ a b, t = a ++ part ++ b ∧ n = utf8Length a ∧ (nestingAfter .outside a).isTop = true := by
  obtain ⟨before, after, rfl, hstands, -, -⟩ := (findTopLevel?_eq_some_iff hsigns).1 h
  obtain ⟨hne, hpart⟩ := hsigns part (by simp)
  obtain ⟨a, b, rfl, rfl, htop⟩ := (standsAt_iff hne hpart).1 hstands
  exact ⟨by simp, a, b, by simp, rfl, Nesting.isTop_iff.2 (top_iff.1 htop)⟩

/-- The first of some signs that is in the text is found where it stands first. -/
theorem findTopLevel?_append {before after : List Text}
    (hsigns : ∀ sign ∈ before ++ part :: after, sign ≠ [] ∧ ∀ c ∈ sign, isSign c = true)
    (ha : Top a) (hpart : ∀ c ∈ part, c ∉ a)
    (hbefore : ∀ sign ∈ before, ∃ c ∈ sign, c ∉ a ∧ c ∉ part ∧ c ∉ b) :
    findTopLevel? (a ++ (part ++ b)) (before ++ part :: after) = some (utf8Length a, part) := by
  obtain ⟨hne, hsign⟩ := hsigns part (by simp)
  refine (findTopLevel?_eq_some_iff hsigns).2 ⟨before, after, rfl, ?_, ?_, ?_⟩
  · exact (standsAt_iff hne hsign).2 ⟨a, b, rfl, rfl, ha⟩
  · rintro m hm ⟨x, y, h, rfl, -⟩
    obtain ⟨p, ps, rfl⟩ := List.exists_cons_of_ne_nil hne
    rcases List.append_eq_append_iff.1 h with ⟨z, rfl, -⟩ | ⟨z, rfl, hrest⟩
    · rw [utf8Length_append] at hm
      omega
    · cases z with
      | nil =>
        rw [List.append_nil] at hm
        exact Nat.lt_irrefl _ hm
      | cons d z =>
        obtain ⟨rfl, -⟩ := List.cons.inj hrest
        exact hpart p List.mem_cons_self (by simp)
  · rintro sign hmem m ⟨x, y, h, -, -⟩
    obtain ⟨c, hc, hca, hcpart, hcb⟩ := hbefore sign hmem
    have htext : c ∈ a ++ (part ++ b) := by rw [h]; simp [hc]
    simp [hca, hcpart, hcb] at htext

end TopLevel

/-- Of signs without blanks, quotes and parentheses, the search finds the first listed that stands
outside string literals and parentheses, at the offset where it first does; and it finds nothing if
none does. A closing parenthesis that has nothing to close does not count. -/
theorem findTopLevel?_spec (t : Text) (signs : List Text)
    (hsigns : ∀ sign ∈ signs, sign ≠ [] ∧ ∀ c ∈ sign, isSign c = true) :
    (∀ n sign, findTopLevel? t signs = some (n, sign) ↔ ∃ before after,
        signs = before ++ sign :: after ∧ StandsAt t n sign ∧ (∀ m < n, ¬StandsAt t m sign) ∧
          ∀ other ∈ before, ∀ m, ¬StandsAt t m other) ∧
      (findTopLevel? t signs = none ↔ ∀ sign ∈ signs, ∀ n, ¬StandsAt t n sign) ∧
      ∀ a b, Top a → (Top (a ++ ')' :: b) ↔ Top (a ++ b)) :=
  ⟨fun _ _ => findTopLevel?_eq_some_iff hsigns, findTopLevel?_eq_none_iff hsigns,
    fun _ _ => top_stray_iff⟩

/-- A sign is found behind a letter of two bytes and a parenthesis that closes nothing. It stands
before that in a literal and in parentheses, and the sign listed first stands in a literal that does
not end. -/
theorem findTopLevel?_spec_hidden :
    (∀ sign ∈ [['<', '>'], ['>', '='], ['=']], sign ≠ [] ∧ ∀ c ∈ sign, isSign c = true) ∧
      StandsAt "é)A1=(B1>=2)&\">=\">=C1\"<>".toList 18 ['>', '='] ∧
      (∀ m < 18, ¬StandsAt "é)A1=(B1>=2)&\">=\">=C1\"<>".toList m ['>', '=']) ∧
      ∀ m, ¬StandsAt "é)A1=(B1>=2)&\">=\">=C1\"<>".toList m ['<', '>'] := by
  have hsigns : ∀ sign ∈ [['<', '>'], ['>', '='], ['=']],
      sign ≠ [] ∧ ∀ c ∈ sign, isSign c = true := by simp [isSign]
  obtain ⟨hsome, -, -⟩ := findTopLevel?_spec "é)A1=(B1>=2)&\">=\">=C1\"<>".toList _ hsigns
  obtain ⟨before, after, hlist, hstands, hfirst, hbefore⟩ := (hsome 18 ['>', '=']).1 (by decide)
  have hlisted : ['<', '>'] ∈ before := by
    cases before with
    | nil => exact absurd (List.cons.inj hlist).1 (by decide)
    | cons first before =>
      rw [← (List.cons.inj hlist).1]
      exact List.mem_cons_self
  exact ⟨hsigns, hstands, hfirst, hbefore _ hlisted⟩

end Spreadsheet.Text
