import Spreadsheet.Formula.Scan
import Spreadsheet.Proofs.Range
import Spreadsheet.Proofs.Text.Part

/-!
Scanning a text put together from two. Where no candidate crosses the seam and none is spoilt by
what follows it, the pieces are those of the two texts. So a part of a text that stands on its own
has no tokens but those of the text, and the text of a reference or of a range is one token.
-/
namespace Spreadsheet.Formula

open Text

variable {x w s t : Text} {c : Char} {q : Bool} {before before' : Option Char} {k : Candidate}

/-- A character that references are made of. -/
def isRefChar (c : Char) : Bool := c.isUpper || c.isDigit || c == '$'

/-- No reference reaches across the seam between two texts. -/
def Seam (x w : Text) : Prop :=
  (∃ c, x.getLast? = some c ∧ isRefChar c = false) ∨ ∀ c ∈ w.head?, isRefChar c = false

theorem Seam.tail (h : Seam (c :: x) w) (hc : isRefChar c = true) : Seam x w := by
  rcases h with ⟨d, hd, href⟩ | h
  · rw [List.getLast?_cons, Option.some.injEq] at hd
    cases hx : x.getLast? with
    | none =>
      rw [hx, Option.getD_none] at hd
      rw [← hd, hc] at href
      cases href
    | some e =>
      rw [hx, Option.getD_some] at hd
      exact .inl ⟨e, hx, hd ▸ href⟩
  · exact .inr h

theorem splitWhile_append_right {p : Char → Bool} (hp : ∀ c, p c = true → isRefChar c = true)
    (h : Seam x w) : splitWhile p (x ++ w) = ((splitWhile p x).1, (splitWhile p x).2 ++ w) ∧
      Seam (splitWhile p x).2 w := by
  unfold splitWhile
  induction x with
  | nil =>
    refine ⟨?_, h⟩
    cases w with
    | nil => rfl
    | cons c w =>
      have hc : p c = false := by
        rcases h with ⟨d, hd, -⟩ | h
        · cases hd
        · refine Bool.eq_false_iff.2 fun hpc => ?_
          have hn := h c rfl
          rw [hp c hpc] at hn
          cases hn
      simp [hc]
  | cons c x ih =>
    by_cases hc : p c = true
    · obtain ⟨he, hseam⟩ := ih (h.tail (hp c hc))
      obtain ⟨h₁, h₂⟩ := Prod.mk.inj he
      simp only [List.cons_append, List.takeWhile_cons_of_pos hc, List.dropWhile_cons_of_pos hc, h₁,
        h₂]
      exact ⟨trivial, hseam⟩
    · simp only [List.cons_append, List.takeWhile_cons_of_neg hc, List.dropWhile_cons_of_neg hc]
      exact ⟨trivial, h⟩

theorem splitAnchor_append_right (h : Seam x w) :
    Reference.splitAnchor (x ++ w) =
        ((Reference.splitAnchor x).1, (Reference.splitAnchor x).2 ++ w) ∧
      Seam (Reference.splitAnchor x).2 w := by
  unfold Reference.splitAnchor
  cases x with
  | nil =>
    refine ⟨?_, h⟩
    split
    · rename_i r he
      rcases h with ⟨d, hd, -⟩ | h
      · cases hd
      · exact absurd (h '$' (by simp_all)) (by decide)
    · rfl
  | cons c x =>
    by_cases hc : c = '$'
    · subst c
      exact ⟨rfl, h.tail rfl⟩
    · simp only [List.cons_append]
      split
      · simp_all
      · split
        · simp_all
        · exact ⟨rfl, h⟩

/-- Reading a reference off the first of two texts goes on as if the second were not there. -/
theorem splitReference?_append (h : Seam x w) :
    splitReference? (x ++ w) = (splitReference? x).map fun r => (r.1, r.2 ++ w) := by
  obtain ⟨h₁, s₁⟩ := splitAnchor_append_right h
  obtain ⟨h₂, s₂⟩ := splitWhile_append_right (p := Char.isUpper) (by simp_all [isRefChar]) s₁
  obtain ⟨h₃, s₃⟩ := splitAnchor_append_right s₂
  obtain ⟨h₄, -⟩ := splitWhile_append_right (p := Char.isDigit) (by simp_all [isRefChar]) s₃
  simp only [splitReference?, h₁, h₂, h₃, h₄]
  split <;> rfl

theorem isRefChar_of_mem_anchor {anchored : Bool} (h : c ∈ Reference.anchor anchored) :
    isRefChar c = true := by
  cases anchored
  · cases h
  · obtain rfl := List.mem_singleton.1 h
    rfl

theorem isRefChar_of_splitReference? {a b : Text} (h : splitReference? t = some (a, b)) :
    ∀ c ∈ a, isRefChar c = true := by
  simp only [splitReference?, Option.ite_none_right_eq_some, Option.some.injEq, Prod.mk.injEq] at h
  obtain ⟨-, rfl, -⟩ := h
  have hclass {p : Char → Bool} {t : Text} (hp : ∀ c, p c = true → isRefChar c = true) :
      ∀ c ∈ (splitWhile p t).1, isRefChar c = true :=
    fun c hc => hp c (List.all_eq_true.1 List.all_takeWhile c hc)
  intro c hc
  simp only [List.mem_append] at hc
  rcases hc with ((hc | hc) | hc) | hc
  · exact isRefChar_of_mem_anchor hc
  · exact hclass (by simp_all [isRefChar]) c hc
  · exact isRefChar_of_mem_anchor hc
  · exact hclass (by simp_all [isRefChar]) c hc

/-- No candidate crosses the seam between two texts, and none is spoilt by what follows it. -/
inductive Clean (x w : Text) : Prop
  | of_last {c : Char} (hlast : x.getLast? = some c) (href : isRefChar c = false)
      (hcolon : c = ':' → splitReference? w = none) : Clean x w
  | of_head (hcloses : closesToken w.head? = true) (hcolon : w.head? ≠ some ':') : Clean x w

theorem isRefChar_of_isAlphanum (h : c.isAlphanum = false) (hd : c ≠ '$') :
    isRefChar c = false := by
  have hsplit : (c.isUpper || c.isLower || c.isDigit) = false := h
  simp only [Bool.or_eq_false_iff] at hsplit
  simp [isRefChar, hsplit, hd]

theorem isRefChar_of_closesToken (h : closesToken (some c) = true) : isRefChar c = false := by
  simp only [closesToken, isNameChar, Option.all_some, Bool.not_eq_true', Bool.or_eq_false_iff,
    beq_eq_false_iff_ne] at h
  exact isRefChar_of_isAlphanum h.1.1.1 h.1.2

theorem Clean.seam (h : Clean x w) : Seam x w := by
  cases h with
  | of_last hlast href _ => exact .inl ⟨_, hlast, href⟩
  | of_head hcloses _ =>
    refine .inr fun c hc => ?_
    rw [Option.mem_def.1 hc] at hcloses
    exact isRefChar_of_closesToken hcloses

theorem getLast?_append_right {y : Text} (hy : y ≠ []) : (x ++ y).getLast? = y.getLast? := by
  rw [List.getLast?_append, List.getLast?_eq_some_getLast hy, Option.some_or]

theorem Clean.suffix {y : Text} (h : Clean (x ++ y) w) (hy : y ≠ []) : Clean y w := by
  cases h with
  | of_last hlast href hcolon =>
    rw [getLast?_append_right hy] at hlast
    exact .of_last hlast href hcolon
  | of_head hcloses hcolon => exact .of_head hcloses hcolon

/-- Behind a colon the seam keeps the second reference of a pair as it is. -/
theorem Clean.splitReference?_second {y : Text} (h : Clean (x ++ ':' :: y) w) :
    splitReference? (y ++ w) = (splitReference? y).map fun r => (r.1, r.2 ++ w) := by
  by_cases hy : y = []
  · subst y
    cases h with
    | of_last hlast _ hcolon =>
      rw [List.getLast?_concat, Option.some.injEq] at hlast
      rw [List.nil_append, hcolon hlast.symm]
      rfl
    | of_head hcloses hcolon =>
      exact splitReference?_append (Clean.of_head hcloses hcolon).seam
  · have h' : Clean ((x ++ [':']) ++ y) w := by simpa using h
    exact splitReference?_append (h'.suffix hy).seam

theorem Candidate.read?_append (h : Clean x w) :
    Candidate.read? (x ++ w) =
      (Candidate.read? x).map fun k => { k with rest := k.rest ++ w } := by
  rw [Candidate.read?, Candidate.read?, splitReference?_append h.seam]
  cases hs : splitReference? x with
  | none => rfl
  | some r =>
    obtain ⟨first, r⟩ := r
    obtain ⟨rfl, hne⟩ := splitReference?_eq_some hs
    simp only [Option.map_some, Option.some.injEq]
    cases r with
    | nil =>
      have hw : w.head? ≠ some ':' := by
        cases h with
        | of_last hlast href _ =>
          rw [List.append_nil] at hlast
          rw [isRefChar_of_splitReference? hs _ (List.mem_of_getLast? hlast)] at href
          cases href
        | of_head _ hcolon => exact hcolon
      cases w with
      | nil => rfl
      | cons d w =>
        have hd : d ≠ ':' := by simpa using hw
        simp [hd]
    | cons d r =>
      by_cases hd : d = ':'
      · subst d
        have h₂ := h.splitReference?_second
        simp only [List.cons_append, h₂]
        cases splitReference? r <;> rfl
      · simp [hd]

theorem Candidate.isRefChar_of_read? (h : Candidate.read? t = some k) :
    (k.first ≠ [] ∧ ∀ c ∈ k.first, isRefChar c = true) ∧
      ∀ s, k.second = some s → s ≠ [] ∧ ∀ c ∈ s, isRefChar c = true := by
  obtain ⟨⟨first, r⟩, hs, he⟩ := Option.map_eq_some_iff.1 h
  have hfirst := And.intro (splitReference?_eq_some hs).2 (isRefChar_of_splitReference? hs)
  dsimp only at he
  split at he
  · split at he
    · rename_i hs'
      subst he
      refine ⟨hfirst, fun s hs => ?_⟩
      obtain rfl := Option.some.inj hs
      exact ⟨(splitReference?_eq_some hs').2, isRefChar_of_splitReference? hs'⟩
    · subst he
      exact ⟨hfirst, by simp⟩
  · subst he
    exact ⟨hfirst, by simp⟩

theorem Candidate.text_eq (k : Candidate) :
    k.text = k.first ++ ((k.second.map (':' :: ·)).getD []) := by
  unfold text
  cases k.second <;> simp

theorem Candidate.isRefChar_of_getLast? (h : Candidate.read? t = some k)
    (hc : k.text.getLast? = some c) : isRefChar c = true := by
  obtain ⟨⟨-, hfirst⟩, hsecond⟩ := isRefChar_of_read? h
  rw [text_eq] at hc
  cases hs : k.second with
  | none =>
    rw [hs, Option.map_none, Option.getD_none, List.append_nil] at hc
    exact hfirst c (List.mem_of_getLast? hc)
  | some s =>
    obtain ⟨hne, hs'⟩ := hsecond s hs
    have hsplit : k.first ++ ':' :: s = (k.first ++ [':']) ++ s := by simp
    rw [hs, Option.map_some, Option.getD_some, hsplit, getLast?_append_right hne] at hc
    exact hs' c (List.mem_of_getLast? hc)

theorem Candidate.quote_not_mem_text (h : Candidate.read? t = some k) : '"' ∉ k.text := by
  obtain ⟨⟨-, hfirst⟩, hsecond⟩ := isRefChar_of_read? h
  have hquote : isRefChar '"' = false := by decide
  rw [text_eq, List.mem_append]
  rintro (hq | hq)
  · rw [hfirst _ hq] at hquote
    cases hquote
  · cases hs : k.second with
    | none =>
      rw [hs] at hq
      cases hq
    | some s =>
      rw [hs] at hq
      have hmem : '"' ∈ s := by simpa using hq
      rw [(hsecond s hs).2 _ hmem] at hquote
      cases hquote

/-- What follows a candidate counts only by its first character. -/
theorem Candidate.pieces_congr {k k' : Candidate} (hfirst : k'.first = k.first)
    (hsecond : k'.second = k.second) (h : closesToken k'.rest.head? = closesToken k.rest.head?) :
    k'.pieces before = k.pieces before := by
  have htext : k'.text = k.text := by rw [text, text, hfirst, hsecond]
  have halone (tail : Text) : k'.firstAlone tail = k.firstAlone tail := by
    rw [firstAlone, firstAlone, hfirst]
  rw [pieces, pieces, h, hsecond, htext, hfirst]
  simp only [halone]

theorem Candidate.pieces_append (hk : Candidate.read? x = some k) (h : Clean x w) :
    { k with rest := k.rest ++ w }.pieces before = k.pieces before := by
  refine pieces_congr rfl rfl ?_
  cases hr : k.rest with
  | cons c r => rfl
  | nil =>
    cases h with
    | of_last hlast href _ =>
      rw [(Candidate.read?_eq_some hk).1, hr, List.append_nil] at hlast
      rw [isRefChar_of_getLast? hk hlast] at href
      cases href
    | of_head hcloses _ => exact hcloses

section Steps

variable {r : Text}

theorem scanFrom_quote (before : Option Char) (q : Bool) (r : Text) :
    scanFrom before q ('"' :: r) = .plain '"' :: scanFrom (some '"') (!q) r := by
  rw [scanFrom, if_pos rfl]

theorem scanFrom_of_quoted (before : Option Char) (hc : c ≠ '"') :
    scanFrom before true (c :: r) = .plain c :: scanFrom (some c) true r := by
  rw [scanFrom, if_neg hc, if_pos rfl]

theorem scanFrom_of_none (before : Option Char) (hc : c ≠ '"')
    (hk : Candidate.read? (c :: r) = none) :
    scanFrom before false (c :: r) = .plain c :: scanFrom (some c) false r := by
  rw [scanFrom, if_neg hc, if_neg Bool.false_ne_true]
  split
  · rfl
  · simp_all

theorem scanFrom_of_some (before : Option Char) (hk : Candidate.read? t = some k) :
    scanFrom before false t = k.pieces before ++ scanFrom k.text.getLast? false k.rest := by
  cases t with
  | nil => cases hk
  | cons c r =>
    have hc : c ≠ '"' := by
      rintro rfl
      obtain ⟨hsplit, hne⟩ := Candidate.read?_eq_some hk
      obtain ⟨d, ds, hd⟩ := List.exists_cons_of_ne_nil hne
      rw [hd, List.cons_append] at hsplit
      refine Candidate.quote_not_mem_text hk ?_
      rw [hd, (List.cons.inj hsplit).1]
      exact List.mem_cons_self
    rw [scanFrom, if_neg hc, if_neg Bool.false_ne_true]
    split
    · simp_all
    · rename_i k' hk'
      obtain rfl := Option.some.inj (hk.symm.trans hk')
      rfl

end Steps

theorem getLast?_cons_or (c : Char) (r : Text) (before : Option Char) :
    (c :: r).getLast?.or before = r.getLast?.or (some c) := by
  rw [List.getLast?_cons]
  cases r.getLast? <;> rfl

/-- The pieces of two texts with a clean seam are those of the first and then of the second. -/
theorem scanFrom_append (before : Option Char) (q : Bool) (h : x ≠ [] → Clean x w) :
    scanFrom before q (x ++ w) =
      scanFrom before q x ++ scanFrom (x.getLast?.or before) (quotedAfter q x) w := by
  have htail {c : Char} {r : Text} (h : c :: r ≠ [] → Clean (c :: r) w) : r ≠ [] → Clean r w :=
    (h (List.cons_ne_nil c r)).suffix (x := [c])
  fun_induction scanFrom before q x with
  | case1 => simp
  | case2 before q r ih =>
    rw [List.cons_append, scanFrom_quote, ih (htail h), getLast?_cons_or, quotedAfter_cons,
      if_pos rfl, List.cons_append]
  | case3 before c r hc ih =>
    rw [List.cons_append, scanFrom_of_quoted before hc, ih (htail h), getLast?_cons_or,
      quotedAfter_cons, if_neg hc, List.cons_append]
  | case4 before q c r hc hq hk ih =>
    obtain rfl := Bool.eq_false_iff.2 hq
    have hk' := Candidate.read?_append (h (List.cons_ne_nil c r))
    rw [hk, Option.map_none, List.cons_append] at hk'
    rw [List.cons_append, scanFrom_of_none before hc hk', ih (htail h), getLast?_cons_or,
      quotedAfter_cons, if_neg hc, List.cons_append]
  | case5 before q c r hc hq k hk _ ih =>
    obtain rfl := Bool.eq_false_iff.2 hq
    have hclean := h (List.cons_ne_nil c r)
    have hk' := Candidate.read?_append hclean
    rw [hk, Option.map_some] at hk'
    obtain ⟨hsplit, hne⟩ := Candidate.read?_eq_some hk
    have hrest : k.rest ≠ [] → Clean k.rest w := (hsplit ▸ hclean).suffix
    have hq' : quotedAfter false (k.text ++ k.rest) = quotedAfter false k.rest := by
      rw [quotedAfter_append, quotedAfter_of_not_mem (Candidate.quote_not_mem_text hk)]
    have hbefore : (k.text ++ k.rest).getLast?.or before = k.rest.getLast?.or k.text.getLast? := by
      rw [List.getLast?_append, Option.or_assoc, List.getLast?_eq_some_getLast hne, Option.some_or]
    rw [scanFrom_of_some before hk', Candidate.pieces_append hk hclean, hsplit, hq', hbefore,
      List.append_assoc, ← ih hrest]
    rfl

/-- The character before a text counts only by whether a token may begin after it. -/
theorem scanFrom_congr (q : Bool) (t : Text) (h : opensToken before = opensToken before') :
    scanFrom before q t = scanFrom before' q t := by
  cases t with
  | nil => rw [scanFrom, scanFrom]
  | cons c r =>
    by_cases hc : c = '"'
    · subst c
      rw [scanFrom_quote, scanFrom_quote]
    · cases q with
      | true => rw [scanFrom_of_quoted _ hc, scanFrom_of_quoted _ hc]
      | false =>
        cases hk : Candidate.read? (c :: r) with
        | none => rw [scanFrom_of_none _ hc hk, scanFrom_of_none _ hc hk]
        | some k =>
          have hpieces : k.pieces before = k.pieces before' := by
            rw [Candidate.pieces, Candidate.pieces, h]
          rw [scanFrom_of_some _ hk, scanFrom_of_some _ hk, hpieces]

theorem mem_tokens {k : Token} : k ∈ tokens t ↔ ∃ s, .token s k ∈ scan t := by
  simp only [tokens, List.mem_filterMap]
  constructor
  · rintro ⟨p, hp, hk⟩
    cases p with
    | plain c => cases hk
    | token s k' =>
      obtain rfl := Option.some.inj hk
      exact ⟨s, hp⟩
  · rintro ⟨s, hs⟩
    exact ⟨_, hs, rfl⟩

theorem isNameChar_of_isWord (h : isWord c = false) : isNameChar c = false := by
  unfold isNameChar
  rw [Bool.or_eq_false_iff]
  refine ⟨Bool.eq_false_iff.2 fun hc => ?_, beq_eq_false_iff_ne.2 ?_⟩
  · rw [isWord_of_isAlphanum hc] at h
    cases h
  · rintro rfl
    exact absurd h (by decide)

theorem isEdge_iff : isEdge c = true ↔ isWord c = false ∧ c ≠ '$' ∧ c ≠ ':' := by
  simp [isEdge, and_assoc]

theorem opensToken_of_isEdge (h : isEdge c = true) : opensToken (some c) = true := by
  obtain ⟨hw, hd, -⟩ := isEdge_iff.1 h
  simp [opensToken, isNameChar_of_isWord hw, hd]

theorem closesToken_of_isEdge (h : isEdge c = true) (hc : c ≠ '(') :
    closesToken (some c) = true := by
  obtain ⟨hw, hd, -⟩ := isEdge_iff.1 h
  simp [closesToken, isNameChar_of_isWord hw, hd, hc]

theorem isRefChar_of_isWord (h : isWord c = false) (hc : c ≠ '$') : isRefChar c = false := by
  have hn := isNameChar_of_isWord h
  simp only [isNameChar, Bool.or_eq_false_iff] at hn
  exact isRefChar_of_isAlphanum hn.1 hc

/-- A part that stands on its own is scanned as it would be alone. -/
theorem scan_of_part {a b : Text} (hq : quotedAfter false a = false)
    (ha : ∀ c ∈ a.getLast?, isEdge c = true) (hb : ∀ c ∈ b.head?, isEdge c = true ∧ c ≠ '(') :
    scan (a ++ s ++ b) = scanFrom none false a ++ scan s ++
      scanFrom (s.getLast?.or none) (quotedAfter false s) b := by
  have hleft : a ≠ [] → Clean a (s ++ b) := by
    intro hne
    have hedge := ha _ (List.getLast?_eq_some_getLast hne)
    obtain ⟨hw, hd, hcolon⟩ := isEdge_iff.1 hedge
    exact .of_last (List.getLast?_eq_some_getLast hne) (isRefChar_of_isWord hw hd)
      fun h => absurd h hcolon
  have hright : s ≠ [] → Clean s b := by
    intro _
    cases b with
    | nil => exact .of_head rfl (by simp)
    | cons c b =>
      obtain ⟨hedge, hparen⟩ := hb c rfl
      refine .of_head (closesToken_of_isEdge hedge hparen) ?_
      simpa using (isEdge_iff.1 hedge).2.2
  have hopens : opensToken (a.getLast?.or none) = opensToken none := by
    cases hl : a.getLast? with
    | none => rfl
    | some c => exact opensToken_of_isEdge (ha c hl)
  rw [scan, List.append_assoc, scanFrom_append none false hleft, hq, scanFrom_congr false _ hopens,
    scanFrom_append none false hright, scan, List.append_assoc]

theorem exists_scan_of_part (h : Part s t) : ∃ ps qs, scan t = ps ++ scan s ++ qs := by
  obtain ⟨a, b, rfl, hq, ha, hb⟩ := h
  exact ⟨_, _, scan_of_part hq ha hb⟩

theorem mem_tokens_of_part (h : Part s t) {k : Token} (hk : k ∈ tokens s) : k ∈ tokens t := by
  obtain ⟨text, htext⟩ := mem_tokens.1 hk
  obtain ⟨ps, qs, hscan⟩ := exists_scan_of_part h
  rw [mem_tokens, hscan]
  exact ⟨text, List.mem_append_left qs (List.mem_append_right ps htext)⟩

/-- Some token of the text covers the cell. -/
def Covers (t : Text) (c : Cell) : Prop := ∃ k ∈ tokens t, c ∈ k.area.cells

/-- The cells that the tokens of a text cover. -/
def covered (t : Text) : List Cell := (tokens t).flatMap fun k => k.area.cells

theorem covers_iff_mem {c : Cell} : Covers t c ↔ c ∈ covered t := List.mem_flatMap.symm

/-- A reference to the cell stands in the text, or a range of at most `limit` cells around it. -/
def MayRead (limit : Nat) (t : Text) (c : Cell) : Prop :=
  ∃ k ∈ tokens t, (k.isRange = true → k.area.cellCount ≤ limit) ∧ c ∈ k.area.cells

theorem MayRead.covers {limit : Nat} {c : Cell} (h : MayRead limit t c) : Covers t c := by
  obtain ⟨k, hk, -, hc⟩ := h
  exact ⟨k, hk, hc⟩

theorem MayRead.of_part {limit : Nat} {c : Cell} (h : Part s t) (hc : MayRead limit s c) :
    MayRead limit t c := by
  obtain ⟨k, hk, hc⟩ := hc
  exact ⟨k, mem_tokens_of_part h hk, hc⟩

section Reference

variable {r : Reference}

theorem splitWhile_of_all {p : Char → Bool} (h : t.all p = true) : splitWhile p t = (t, []) := by
  unfold splitWhile
  induction t with
  | nil => rfl
  | cons c t ih =>
    rw [List.all_cons, Bool.and_eq_true] at h
    obtain ⟨h₁, h₂⟩ := Prod.mk.inj (ih h.2)
    rw [List.takeWhile_cons_of_pos h.1, List.dropWhile_cons_of_pos h.1, h₁, h₂]

theorem splitReference?_of_read? (h : Reference.read? t = some r) :
    splitReference? t = some (t, []) := by
  simp only [Reference.read?] at h
  obtain ⟨col, hcol, h⟩ := Option.bind_eq_some_iff.1 h
  obtain ⟨row, hrow, -⟩ := Option.map_eq_some_iff.1 h
  obtain ⟨n, hn, -⟩ := Option.bind_eq_some_iff.1 hrow
  obtain ⟨⟨hne, hall⟩, -⟩ := Option.ite_none_right_eq_some.1 hn
  obtain ⟨⟨hletters, -⟩, -⟩ := Option.ite_none_right_eq_some.1 hcol
  obtain ⟨a, hs⟩ : ∃ a, splitReference? t = some (a, []) := by
    simp only [splitReference?, splitWhile_of_all hall]
    exact ⟨_, if_pos ⟨hletters, hne⟩⟩
  have ht := (splitReference?_eq_some hs).1
  rw [List.append_nil] at ht
  rw [hs, ← ht]

theorem scan_of_reference (h : Reference.read? t = some r) : scan t = [.token t (.cell r)] := by
  have hk : Candidate.read? t = some ⟨t, none, []⟩ := by
    rw [Candidate.read?, splitReference?_of_read? h]
    rfl
  have hopens : opensToken none = true := rfl
  have hcloses : closesToken none = true := rfl
  have hpieces : Candidate.pieces ⟨t, none, []⟩ none = [.token t (.cell r)] := by
    simp [Candidate.pieces, Candidate.firstAlone, hopens, hcloses, h, Piece.ofText]
  rw [scan, scanFrom_of_some none hk, hpieces, scanFrom, List.append_nil]

theorem tokens_of_reference (h : Reference.read? t = some r) : tokens t = [.cell r] := by
  rw [tokens, scan_of_reference h]
  rfl

theorem exists_scan_of_range {area : Range} (h : Range.read? t = some area) :
    ∃ a b, scan t = [.token t (.range a b)] ∧ (Token.range a b).area = area := by
  obtain ⟨⟨start, stop⟩, hcut, h⟩ := Option.bind_eq_some_iff.1 h
  obtain ⟨a, ha, h⟩ := Option.bind_eq_some_iff.1 h
  obtain ⟨b, hb, h⟩ := Option.bind_eq_some_iff.1 h
  obtain rfl := Option.some.inj h
  obtain ⟨rfl, -⟩ := cutAt?_eq_some_iff.1 hcut
  have hseam : Seam start (':' :: stop) := .inr (by simp [isRefChar])
  have hk : Candidate.read? (start ++ ':' :: stop) = some ⟨start, some stop, []⟩ := by
    rw [Candidate.read?, splitReference?_append hseam, splitReference?_of_read? ha, Option.map_some,
      Option.map_some]
    simp [splitReference?_of_read? hb]
  have hopens : opensToken none = true := rfl
  have hcloses : closesToken none = true := rfl
  have hpieces : Candidate.pieces ⟨start, some stop, []⟩ none =
      [.token (start ++ ':' :: stop) (.range a b)] := by
    simp [Candidate.pieces, Candidate.text, hopens, hcloses, ha, hb]
  exact ⟨a, b, by rw [scan, scanFrom_of_some none hk, hpieces, scanFrom, List.append_nil], rfl⟩

theorem exists_tokens_of_range {area : Range} (h : Range.read? t = some area) :
    ∃ k, tokens t = [k] ∧ k.area = area := by
  obtain ⟨a, b, hscan, harea⟩ := exists_scan_of_range h
  refine ⟨.range a b, ?_, harea⟩
  rw [tokens, hscan]
  rfl

theorem mayRead_of_reference (h : Reference.read? t = some r) (limit : Nat) :
    MayRead limit t r.cell := by
  refine ⟨.cell r, ?_, (nomatch ·), Range.mem_cells_single.2 rfl⟩
  rw [tokens_of_reference h]
  exact List.mem_singleton_self _

theorem mayRead_of_range {area : Range} (h : Range.read? t = some area) {limit : Nat}
    (hlimit : area.cellCount ≤ limit) {c : Cell} (hc : c ∈ area.cells) : MayRead limit t c := by
  obtain ⟨k, hk, rfl⟩ := exists_tokens_of_range h
  exact ⟨k, by rw [hk]; exact List.mem_singleton_self k, fun _ => hlimit, hc⟩

end Reference

end Spreadsheet.Formula
