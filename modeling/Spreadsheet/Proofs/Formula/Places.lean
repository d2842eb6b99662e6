import Spreadsheet.Proofs.Formula.Boundary
import Spreadsheet.Proofs.Reference.Codec
import Spreadsheet.Proofs.Text.Mask

/-!
Where the tokens of a formula stand. They are found from left to right without overlap, each between
whole characters, outside string literals, and with nothing around it that continues it. Masking the
literals moves none of them. Main statement: a token is what its text by itself is read as, and stands
in the formula at the bytes that it was found at.
-/
namespace Spreadsheet.Formula

open Text

variable {q : Bool} {before : Option Char} {c : Char} {s t w : Text} {k : Token}
  {ps qs rs : List Piece} {n : Nat} {f g : Found}

section Alone

/-- The token that a whole text is: a reference, or two with a colon between them. -/
def Token.read? (t : Text) : Option Token :=
  match cutAt? ':' t with
  | none => (Reference.read? t).map .cell
  | some (a, b) => do return .range (← Reference.read? a) (← Reference.read? b)

theorem colon_not_mem_of_read? {r : Reference} (h : Reference.read? t = some r) : ':' ∉ t :=
  (Reference.read?_eq_some_iff.1 h).colon_not_mem

theorem Token.ReadFrom.read?_eq (h : k.ReadFrom t) : Token.read? t = some k := by
  cases h with
  | cell h =>
    have hcut : cutAt? ':' t = none := by
      rw [Option.eq_none_iff_forall_not_mem]
      rintro ⟨a, b⟩ hab
      refine colon_not_mem_of_read? h ?_
      rw [(cutAt?_eq_some_iff.1 hab).1]
      simp
    rw [read?, hcut]
    simp [h]
  | @range s t a b hs ht =>
    have hcut : cutAt? ':' (s ++ ':' :: t) = some (s, t) :=
      cutAt?_eq_some_iff.2 ⟨rfl, colon_not_mem_of_read? hs⟩
    rw [read?, hcut]
    simp [hs, ht]

end Alone

section Before

/-- Each token of the pieces stands outside string literals and may begin where it does. The text before
the pieces ends with the given character, inside a literal or not. -/
inductive Opened : Option Char → Bool → List Piece → Prop
  | nil {before : Option Char} {q : Bool} : Opened before q []
  | plain {before : Option Char} {q : Bool} {c : Char} {ps : List Piece}
      (h : Opened (some c) (quotedAfter q [c]) ps) : Opened before q (.plain c :: ps)
  | token {before : Option Char} {s : Text} {k : Token} {ps : List Piece}
      (hopens : opensToken before = true) (h : Opened s.getLast? false ps) :
      Opened before false (.token s k :: ps)

namespace Opened

theorem ofText_append (h : Opened (w.getLast?.or before) (quotedAfter q w) ps) :
    Opened before q (Piece.ofText w ++ ps) := by
  induction w generalizing before q with
  | nil => exact h
  | cons c w ih =>
    rw [getLast?_cons_or] at h
    exact .plain (ih h)

theorem firstAlone_append {k : Candidate} (hopens : opensToken before = true)
    (hquote : '"' ∉ k.first ++ t) (hne : k.first ≠ [])
    (h : Opened (k.first ++ t).getLast? false ps) : Opened before false (k.firstAlone t ++ ps) := by
  rw [List.mem_append, not_or] at hquote
  unfold Candidate.firstAlone
  split
  · refine .token hopens (ofText_append ?_)
    rwa [quotedAfter_of_not_mem hquote.2, ← List.getLast?_append]
  · refine ofText_append ?_
    rw [quotedAfter_of_not_mem (by simp [hquote]), List.getLast?_eq_some_getLast (by simp [hne]),
      Option.some_or, ← List.getLast?_eq_some_getLast]
    exact h

theorem pieces_append {k : Candidate} (hk : Candidate.read? t = some k)
    (h : Opened k.text.getLast? false ps) : Opened before false (k.pieces before ++ ps) := by
  obtain ⟨⟨hne, -⟩, -⟩ := Candidate.isRefChar_of_read? hk
  have hquote := Candidate.quote_not_mem_text hk
  have hplain : Opened before false (Piece.ofText k.text ++ ps) := by
    refine ofText_append ?_
    rw [quotedAfter_of_not_mem hquote,
      List.getLast?_eq_some_getLast (Candidate.read?_eq_some hk).2, Option.some_or,
      ← List.getLast?_eq_some_getLast]
    exact h
  unfold Candidate.pieces
  split
  · rename_i hopens
    split
    · rename_i hsecond
      have htext : k.text = k.first ++ [] := by simp [Candidate.text, hsecond]
      split
      · rw [htext] at h hquote
        exact firstAlone_append hopens hquote hne h
      · exact hplain
    · rename_i s hsecond
      have htext : k.text = k.first ++ ':' :: s := by simp [Candidate.text, hsecond]
      split
      · split
        · exact .token hopens h
        · exact hplain
      · rw [htext] at h hquote
        exact firstAlone_append hopens hquote hne h
  · exact hplain

/-- A token stands outside string literals and may begin where it does. -/
theorem of_append (h : Opened before q (qs ++ .token s k :: rs))
    (hread : Delimited (qs ++ .token s k :: rs)) :
    opensToken ((join qs).getLast?.or before) = true ∧ quotedAfter q (join qs) = false := by
  induction qs generalizing before q with
  | nil =>
    cases h with
    | token hopens _ => exact ⟨hopens, rfl⟩
  | cons p qs ih =>
    cases h with
    | plain h =>
      obtain ⟨hopens, hquoted⟩ := ih h hread.tail
      rw [join_plain, getLast?_cons_or, ← List.singleton_append, quotedAfter_append]
      exact ⟨hopens, hquoted⟩
    | @token _ s' k' _ _ h =>
      obtain ⟨hopens, hquoted⟩ := ih h hread.tail
      have hread' : k'.ReadFrom s' := hread.readFrom_of_mem List.mem_cons_self
      obtain ⟨c, hlast, -⟩ := hread'.getLast?
      rw [Option.mem_def] at hlast
      rw [hlast] at hopens
      rw [join_token, List.getLast?_append, hlast, quotedAfter_append,
        quotedAfter_of_not_mem (hread'.not_mem (by decide) (by decide)), Option.or_assoc,
        Option.some_or]
      exact ⟨hopens, hquoted⟩

end Opened

theorem opened_scanFrom (before : Option Char) (q : Bool) (t : Text) :
    Opened before q (scanFrom before q t) := by
  fun_induction scanFrom before q t with
  | case1 => exact .nil
  | case2 before q r ih => exact .plain ih
  | case3 before c r hc ih =>
    refine .plain ?_
    rwa [quotedAfter_cons, if_neg hc]
  | case4 before q c r hc hq hk ih =>
    refine .plain ?_
    rwa [quotedAfter_cons, if_neg hc]
  | case5 before q c r hc hq k hk _ ih =>
    obtain rfl := Bool.eq_false_iff.2 hq
    exact Opened.pieces_append hk ih

end Before

section Found

theorem foundFrom_append (n : Nat) (ps qs : List Piece) :
    foundFrom n (ps ++ qs) = foundFrom n ps ++ foundFrom (n + utf8Length (join ps)) qs := by
  induction ps generalizing n with
  | nil => rfl
  | cons p ps ih =>
    cases p with
    | plain c =>
      rw [List.cons_append, foundFrom, ih, join_plain, utf8Length_cons, foundFrom, Nat.add_assoc]
    | token s k =>
      rw [List.cons_append, foundFrom, ih, join_token, utf8Length_append, foundFrom, Nat.add_assoc]
      rfl

@[simp] theorem foundFrom_ofText (n : Nat) (w : Text) : foundFrom n (Piece.ofText w) = [] := by
  induction w generalizing n with
  | nil => rfl
  | cons c w ih => exact ih _

/-- What is found is a token of the pieces, at the bytes after those before it. -/
theorem exists_of_mem_foundFrom (h : f ∈ foundFrom n ps) : ∃ qs rs,
    ps = qs ++ .token f.text f.token :: rs ∧ f.start = n + utf8Length (join qs) ∧
      f.stop = f.start + utf8Length f.text := by
  induction ps generalizing n with
  | nil => cases h
  | cons p ps ih =>
    cases p with
    | plain c =>
      obtain ⟨qs, rs, rfl, hstart, hstop⟩ := ih h
      refine ⟨.plain c :: qs, rs, rfl, ?_, hstop⟩
      rw [hstart, join_plain, utf8Length_cons, Nat.add_assoc]
    | token s k =>
      rcases List.mem_cons.1 h with rfl | h
      · exact ⟨[], ps, rfl, rfl, rfl⟩
      · obtain ⟨qs, rs, rfl, hstart, hstop⟩ := ih h
        refine ⟨.token s k :: qs, rs, rfl, ?_, hstop⟩
        rw [hstart, join_token, utf8Length_append, Nat.add_assoc]

theorem pairwise_foundFrom (n : Nat) (ps : List Piece) :
    (foundFrom n ps).Pairwise fun f g => f.stop ≤ g.start := by
  induction ps generalizing n with
  | nil => exact .nil
  | cons p ps ih =>
    cases p with
    | plain c => exact ih _
    | token s k =>
      refine List.pairwise_cons.2 ⟨fun g hg => ?_, ih _⟩
      obtain ⟨qs, rs, -, hstart, -⟩ := exists_of_mem_foundFrom hg
      dsimp only
      omega

/-- A token that is found stands between two parts of a text: at its own bytes, outside string
literals, read as its text by itself is, and continued neither before nor behind it. -/
structure Found.StandsBetween (f : Found) (before after : Text) : Prop where
  start_eq : f.start = utf8Length before
  stop_eq : f.stop = utf8Length (before ++ f.text)
  ne_nil : f.text ≠ []
  outside : quotedAfter false before = false
  quote_not_mem : '"' ∉ f.text
  read : Token.read? f.text = some f.token
  opens : ∀ c ∈ before.getLast?, isNameChar c = false ∧ c ≠ '$'
  closes : ∀ c ∈ after.head?, isNameChar c = false ∧ c ≠ '$' ∧ c ≠ '('

theorem opensToken_eq_true_iff :
    opensToken before = true ↔ ∀ c ∈ before, isNameChar c = false ∧ c ≠ '$' := by
  cases before <;> simp [opensToken]

theorem closesToken_eq_true_iff : closesToken before = true ↔
    ∀ c ∈ before, isNameChar c = false ∧ c ≠ '$' ∧ c ≠ '(' := by
  cases before <;> simp [closesToken, and_assoc]

theorem exists_standsBetween (h : f ∈ references t) :
    ∃ before after, t = before ++ f.text ++ after ∧ f.StandsBetween before after := by
  obtain ⟨qs, rs, hps, hstart, hstop⟩ := exists_of_mem_foundFrom h
  have hjoin := join_scan t
  have hread := delimited_scanFrom none false t
  have hopened := opened_scanFrom none false t
  rw [← scan, hps] at hread hopened
  rw [hps, join_append, join_token, ← List.append_assoc] at hjoin
  obtain ⟨hopens, houtside⟩ := hopened.of_append hread
  rw [Option.or_none] at hopens
  rw [Nat.zero_add] at hstart
  cases hread.of_append with
  | token hread hcloses _ =>
    obtain ⟨c, r, htext, -⟩ := hread.exists_cons
    refine ⟨join qs, join rs, hjoin.symm, ?_⟩
    exact {
      start_eq := hstart
      stop_eq := by rw [hstop, hstart, utf8Length_append]
      ne_nil := by rw [htext]; exact List.cons_ne_nil c r
      outside := houtside
      quote_not_mem := hread.not_mem (by decide) (by decide)
      read := hread.read?_eq
      opens := opensToken_eq_true_iff.1 hopens
      closes := closesToken_eq_true_iff.1 hcloses }

theorem pairwise_references (t : Text) :
    (references t).Pairwise fun f g => f.start < g.start ∧ f.stop ≤ g.start := by
  refine (pairwise_foundFrom 0 (scan t)).imp_of_mem fun {f g} hf _ hle => ?_
  obtain ⟨before, after, -, hf⟩ := exists_standsBetween hf
  have hstart := hf.start_eq
  have hstop := hf.stop_eq
  have hpos := utf8Length_pos hf.ne_nil
  rw [utf8Length_append] at hstop
  omega

end Found

section Masked

/-- Masking the literals of what follows leaves the reference characters as they are. -/
theorem alike_maskFrom (t : Text) : Alike t (maskFrom false t) := by
  induction t with
  | nil => exact .nil
  | cons c r ih =>
    by_cases hc : isRefChar c = true
    · have hquote : c ≠ '"' := by
        rintro rfl
        cases hc
      rw [maskFrom_false_cons hquote]
      exact .cons hc ih
    · have hkeep : masked false c = [c] := if_pos (.inr rfl)
      rw [maskFrom_cons, hkeep]
      exact .stop (Bool.eq_false_iff.2 hc) _ _

theorem Candidate.Valid.mask {k : Candidate} (hk : k.Valid) :
    Candidate.Valid { k with rest := maskFrom false k.rest } where
  first := hk.first
  second := hk.second
  rest := by
    rw [← (alike_maskFrom k.rest).head?_eq]
    exact hk.rest
  alone := by
    rintro hsecond x hx
    have hhead := (alike_maskFrom k.rest).head?_eq
    rw [show maskFrom false k.rest = ':' :: x from hx] at hhead
    obtain ⟨y, hy⟩ := List.head?_eq_some_iff.1 hhead
    rw [hy, maskFrom_false_cons (by decide)] at hx
    rw [← (List.cons.inj hx).2]
    exact (alike_maskFrom y).splitReference?_eq_none (hk.alone hsecond y hy)

theorem scanFrom_blanks (before : Option Char) (m : Nat) (t : Text) : ∃ before',
    scanFrom before true (List.replicate m ' ' ++ t) =
      Piece.ofText (List.replicate m ' ') ++ scanFrom before' true t := by
  induction m generalizing before with
  | zero => exact ⟨before, rfl⟩
  | succ m ih =>
    obtain ⟨before', hscan⟩ := ih (some ' ')
    refine ⟨before', ?_⟩
    rw [List.replicate_succ, List.cons_append, scanFrom_of_quoted before (by decide), hscan]
    rfl

/-- Masking moves no token. Inside a literal it does not count what stands before. -/
theorem foundFrom_scanFrom_maskFrom {before' : Option Char} (n : Nat)
    (hbefore : q = false → opensToken before' = opensToken before) :
    foundFrom n (scanFrom before' q (maskFrom q t)) = foundFrom n (scanFrom before q t) := by
  fun_induction scanFrom before q t generalizing n before' with
  | case1 => rw [maskFrom, scanFrom]
  | case2 before q r ih =>
    rw [maskFrom, if_pos rfl, scanFrom_quote, foundFrom, foundFrom]
    exact ih _ fun _ => rfl
  | case3 before c r hc ih =>
    obtain ⟨before'', hscan⟩ := scanFrom_blanks before' c.utf8Size (maskFrom true r)
    rw [maskFrom, if_neg hc, if_pos rfl, blanked, hscan, foundFrom_append, foundFrom_ofText,
      List.nil_append, join_ofText, utf8Length_replicate_blank, foundFrom]
    exact ih _ fun h => absurd h (by decide)
  | case4 before q c r hc hq hk ih =>
    obtain rfl := Bool.eq_false_iff.2 hq
    have hmask := maskFrom_false_cons hc r
    have hnone : Candidate.read? (c :: maskFrom false r) = none := by
      rw [Candidate.read?, Option.map_eq_none_iff] at hk ⊢
      rw [← hmask]
      exact (alike_maskFrom _).splitReference?_eq_none hk
    rw [hmask, scanFrom_of_none before' hc hnone, foundFrom, foundFrom]
    exact ih _ fun _ => rfl
  | case5 before q c r hc hq k hk _ ih =>
    obtain rfl := Bool.eq_false_iff.2 hq
    obtain ⟨htext, hvalid⟩ := Candidate.read?_eq_some_iff.1 hk
    have hquote := Candidate.quote_not_mem_text hk
    have hmask : maskFrom false (c :: r) = k.text ++ maskFrom false k.rest := by
      rw [htext, maskFrom_append, maskFrom_of_not_mem hquote, quotedAfter_of_not_mem hquote]
      rfl
    have hsame : Candidate.pieces { k with rest := maskFrom false k.rest } before =
        k.pieces before := Candidate.pieces_congr rfl rfl (by rw [(alike_maskFrom k.rest).head?_eq])
    have hscan : scanFrom before false (k.text ++ maskFrom false k.rest) =
        k.pieces before ++ scanFrom k.text.getLast? false (maskFrom false k.rest) := by
      rw [← hsame]
      exact scanFrom_of_some before hvalid.mask.read?_append
    rw [scanFrom_congr false _ (hbefore rfl), hmask, hscan, foundFrom_append, foundFrom_append,
      ih _ fun _ => rfl]

theorem references_mask (t : Text) : references (mask t) = references t :=
  foundFrom_scanFrom_maskFrom 0 fun _ => rfl

end Masked

theorem rewrite_eq_self {replace : Text → Token → Option Text}
    (h : ∀ s k, (replace s k).getD s = s) : rewrite replace t = t := by
  have hsame : rewrite replace t = rewrite (fun _ _ => none) t := by
    refine List.flatMap_congr fun p _ => ?_
    cases p with
    | plain c => rfl
    | token s k => exact h s k
  rw [hsame, rewrite_none]

/-- Masking keeps the bytes of a text, its quotes and all outside its literals, and no token moves by
it. The tokens that are found follow one another, each stands where it was found, and a rewriting that
keeps them keeps the text. -/
theorem references_spec (t : Text) :
    (utf8Length (mask t) = utf8Length t ∧ mask (mask t) = mask t ∧
      ∀ a c b, t = a ++ c :: b → ∃ a' b', utf8Length a' = utf8Length a ∧ mask t =
        a' ++ (if c = '"' ∨ quotedAfter false a = false then [c] else blanked c) ++ b') ∧
    references (mask t) = references t ∧
    (references t).Pairwise (fun f g => f.start < g.start ∧ f.stop ≤ g.start) ∧
    (∀ f ∈ references t, ∃ before after,
      t = before ++ f.text ++ after ∧ f.StandsBetween before after) ∧
    ∀ replace : Text → Token → Option Text, (∀ s k, (replace s k).getD s = s) →
      rewrite replace t = t := by
  refine ⟨⟨utf8Length_mask t, mask_mask t, ?_⟩, references_mask t, pairwise_references t,
    fun f hf => exists_standsBetween hf, fun replace h => rewrite_eq_self h⟩
  rintro a c b rfl
  exact exists_mask_eq a c b

theorem references_spec_half_matched : ∃ f : Found, f.text = "A1".toList ∧ f.start = 6 ∧ f.stop = 8 ∧
    (∃ before after, "=\"é\"&A1:B2C+$D4".toList = before ++ f.text ++ after ∧
      f.StandsBetween before after) ∧
    rewrite (fun s _ => some s) "=\"é\"&A1:B2C+$D4".toList = "=\"é\"&A1:B2C+$D4".toList := by
  obtain ⟨-, -, -, hfound, hkeep⟩ := references_spec "=\"é\"&A1:B2C+$D4".toList
  have hmem : ∃ f ∈ references "=\"é\"&A1:B2C+$D4".toList,
      f.text = "A1".toList ∧ f.start = 6 ∧ f.stop = 8 := by
    decide +kernel
  obtain ⟨f, hf, htext, hstart, hstop⟩ := hmem
  exact ⟨f, htext, hstart, hstop, hfound f hf, hkeep _ fun _ _ => rfl⟩

end Spreadsheet.Formula
