import Spreadsheet.Proofs.Text.Nesting
import Spreadsheet.Text.Word

/-!
The parts of a formula text that stand on their own: outside string literals, and with an edge on
either side that no word, reference or call reaches across. Trimming a text and cutting an argument
list leave such parts, and a part of a part is one.
-/
namespace Spreadsheet.Text

variable {a b s t u : Text} {c : Char}

/-- A character that no word and no reference reaches across. -/
def isEdge (c : Char) : Bool := !(isWord c || c == '$' || c == ':')

/-- The first text is a part of the second that stands on its own. -/
def Part (s t : Text) : Prop :=
  ∃ a b, t = a ++ s ++ b ∧ quotedAfter false a = false ∧ (∀ c ∈ a.getLast?, isEdge c = true) ∧
    ∀ c ∈ b.head?, isEdge c = true ∧ c ≠ '('

theorem Part.refl (t : Text) : Part t t := ⟨[], [], by simp, rfl, by simp, by simp⟩

theorem Part.trans (h : Part s t) (h' : Part t u) : Part s u := by
  obtain ⟨a, b, rfl, hq, ha, hb⟩ := h
  obtain ⟨a', b', rfl, hq', ha', hb'⟩ := h'
  refine ⟨a' ++ a, b ++ b', by simp, ?_, ?_, ?_⟩
  · rw [quotedAfter_append, hq', hq]
  · intro c hc
    rw [List.getLast?_append, Option.mem_def, Option.or_eq_some_iff] at hc
    rcases hc with hc | ⟨-, hc⟩
    · exact ha c hc
    · exact ha' c hc
  · intro c hc
    rw [List.head?_append, Option.mem_def, Option.or_eq_some_iff] at hc
    rcases hc with hc | ⟨-, hc⟩
    · exact hb c hc
    · exact hb' c hc

theorem isBlank_iff : isBlank c = true ↔ ∃ r ∈ blankRanges, r.1 ≤ c.toNat ∧ c.toNat ≤ r.2 := by
  simp [isBlank]

theorem isWord_of_isBlank (h : isBlank c = true) : isWord c = false := by
  obtain ⟨r, hr, hlo, hhi⟩ := isBlank_iff.1 h
  unfold isWord
  split
  · rename_i hc
    have hwide : ∀ r ∈ blankRanges, r.1 < 128 → r.2 < 48 := by decide
    have hsmall : c.toNat < 48 := by
      have := hwide r hr (by omega)
      omega
    have hchar : c.isAlphanum = false ∧ c ≠ '_' :=
      of_toNat_lt (P := fun c => c.isAlphanum = false ∧ c ≠ '_') (by decide) hsmall
    simp [hchar]
  · have hgap : ∀ r ∈ blankRanges, ∀ w ∈ wideWordRanges, r.2 < w.1 ∨ w.2 < r.1 := by
      decide +kernel
    rw [List.any_eq_false]
    intro w hw
    have := hgap r hr w hw
    simp only [Bool.and_eq_true, decide_eq_true_eq, not_and]
    omega

theorem isEdge_of_isBlank (h : isBlank c = true) : isEdge c = true := by
  have hd : c ≠ '$' := by
    rintro rfl
    exact absurd h (by decide)
  have hc : c ≠ ':' := by
    rintro rfl
    exact absurd h (by decide)
  simp [isEdge, isWord_of_isBlank h, hd, hc]

theorem quotedAfter_of_blank {q : Bool} (h : ∀ c ∈ t, isBlank c = true) : quotedAfter q t = q :=
  quotedAfter_of_not_mem fun hq => absurd (h '"' hq) (by decide)

theorem exists_trim (t : Text) : ∃ a b, t = a ++ trim t ++ b ∧ (∀ c ∈ a, isBlank c = true) ∧
    ∀ c ∈ b, isBlank c = true := by
  have hstart : t.takeWhile isBlank ++ trimStart t = t := List.takeWhile_append_dropWhile
  have hend : trimEnd (trimStart t) ++ ((trimStart t).reverse.takeWhile isBlank).reverse =
      trimStart t := by
    rw [trimEnd, ← List.reverse_append, List.takeWhile_append_dropWhile, List.reverse_reverse]
  refine ⟨t.takeWhile isBlank, ((trimStart t).reverse.takeWhile isBlank).reverse, ?_, ?_, ?_⟩
  · rw [trim, List.append_assoc, hend, hstart]
  · exact List.all_eq_true.1 List.all_takeWhile
  · exact fun c hc => List.all_eq_true.1 List.all_takeWhile c (List.mem_reverse.1 hc)

/-- The text neither begins nor ends with a blank. -/
structure Trimmed (t : Text) : Prop where
  head : ∀ c ∈ t.head?, isBlank c = false
  last : ∀ c ∈ t.getLast?, isBlank c = false

theorem isBlank_head?_dropWhile (t : Text) :
    ∀ c ∈ (t.dropWhile isBlank).head?, isBlank c = false := by
  intro c hc
  have hhead := List.head?_dropWhile_not isBlank t
  rw [Option.mem_def.1 hc] at hhead
  exact hhead

theorem trimmed_trim (t : Text) : Trimmed (trim t) where
  head := by
    intro c hc
    obtain ⟨r, hr⟩ := isPrefix_trimEnd (trimStart t)
    have hstart : c ∈ (trimStart t).head? := by
      rw [← hr, List.head?_append, ← trim, Option.mem_def.1 hc]
      rfl
    exact isBlank_head?_dropWhile t c hstart
  last := by
    intro c hc
    rw [trim, trimEnd, List.getLast?_reverse] at hc
    exact isBlank_head?_dropWhile _ c hc

theorem Trimmed.append (ha : Trimmed a) (hb : Trimmed b) (hane : a ≠ []) (hbne : b ≠ [])
    (t : Text) :
    Trimmed (a ++ (t ++ b)) where
  head := by
    obtain ⟨c, a, rfl⟩ := List.exists_cons_of_ne_nil hane
    exact ha.head
  last := by
    intro c hc
    rw [← List.append_assoc, List.getLast?_append, List.getLast?_eq_some_getLast hbne,
      Option.some_or] at hc
    refine hb.last c ?_
    rwa [List.getLast?_eq_some_getLast hbne]

/-- Only the blanks around a text are trimmed. -/
theorem trim_append (ha : ∀ c ∈ a, isBlank c = true) (hb : ∀ c ∈ b, isBlank c = true)
    (ht : Trimmed t) (hne : t ≠ []) : trim (a ++ (t ++ b)) = t := by
  have hkeep {w : Text} (h : ∀ c ∈ w.head?, isBlank c = false) : w.dropWhile isBlank = w := by
    cases w with
    | nil => rfl
    | cons c w => rw [List.dropWhile_cons_of_neg (by simp [h c rfl])]
  have hstart : trimStart (a ++ (t ++ b)) = t ++ b := by
    rw [trimStart, List.dropWhile_append_of_pos ha, hkeep]
    obtain ⟨d, r, rfl⟩ := List.exists_cons_of_ne_nil hne
    exact ht.head
  have hend : (t ++ b).reverse.dropWhile isBlank = t.reverse := by
    rw [List.reverse_append, List.dropWhile_append_of_pos, hkeep]
    · rw [List.head?_reverse]
      exact ht.last
    · exact fun c hc => hb c (List.mem_reverse.1 hc)
  rw [trim, hstart, trimEnd, hend, List.reverse_reverse]

theorem trim_of_trimmed (ht : Trimmed t) : trim t = t := by
  by_cases hne : t = []
  · rw [hne, trim_nil]
  · simpa using trim_append (a := []) (b := []) (by simp) (by simp) ht hne

theorem part_trim (t : Text) : Part (trim t) t := by
  obtain ⟨a, b, ht, ha, hb⟩ := exists_trim t
  refine ⟨a, b, ht, quotedAfter_of_blank ha, fun c hc => ?_, fun c hc => ⟨?_, ?_⟩⟩
  · exact isEdge_of_isBlank (ha c (List.mem_of_getLast? hc))
  · exact isEdge_of_isBlank (hb c (List.mem_of_mem_head? hc))
  · rintro rfl
    exact absurd (hb _ (List.mem_of_mem_head? hc)) (by decide)

theorem part_of_mem_splitArguments (h : s ∈ splitArguments t) : Part s t := by
  unfold splitArguments at h
  split at h
  · cases h
  · obtain ⟨p, hp, rfl⟩ := List.mem_map.1 h
    obtain ⟨a, b, ht, hq, ha, hb⟩ := exists_of_mem_splitFrom hp
    refine (part_trim p).trans ⟨a, b, ht, hq, fun c hc => ?_, fun c hc => ?_⟩
    · rw [ha c hc]
      decide
    · rw [hb c hc]
      decide

end Spreadsheet.Text
