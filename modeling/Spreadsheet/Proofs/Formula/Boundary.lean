import Spreadsheet.Proofs.Formula.Shift

/-!
How the tokens of a scanned text are told from what follows them. Each token is read off its own text,
and what stands behind it lets it end there. So a run of letters and digits up to an opening
parenthesis, the name of a call for instance, has no token in it, and tokens neither open nor close
anything.
-/
namespace Spreadsheet.Formula

variable {q : Bool} {c : Char} {s t w : Text} {k : Token} {ps qs : List Piece}

theorem join_plain (c : Char) (ps : List Piece) : join (.plain c :: ps) = c :: join ps := rfl

theorem join_token (s : Text) (k : Token) (ps : List Piece) :
    join (.token s k :: ps) = s ++ join ps := rfl

theorem join_append (ps qs : List Piece) : join (ps ++ qs) = join ps ++ join qs :=
  List.flatMap_append

theorem join_ofText (w : Text) : join (Piece.ofText w) = w := Piece.flatMap_text_ofText w

theorem join_ofText_append (w : Text) (ps : List Piece) :
    join (Piece.ofText w ++ ps) = w ++ join ps := by
  rw [join_append, join_ofText]

section Tokens

/-- The token is read off the text. -/
inductive Token.ReadFrom : Text → Token → Prop
  | cell {s : Text} {r : Reference} (h : Reference.read? s = some r) : ReadFrom s (.cell r)
  | range {s t : Text} {a b : Reference} (hs : Reference.read? s = some a)
      (ht : Reference.read? t = some b) : ReadFrom (s ++ ':' :: t) (.range a b)

/-- A reference begins with a capital or a dollar sign. -/
theorem exists_cons_of_isReferenceText (h : IsReferenceText s) :
    ∃ c r, s = c :: r ∧ (c = '$' ∨ c.isUpper = true) := by
  obtain ⟨col, letters, row, digits, hspelled, rfl, -⟩ := exists_spelled_of_splitReference? h
  obtain ⟨c, letters, rfl⟩ := List.exists_cons_of_ne_nil hspelled.letters_ne_nil
  cases col with
  | true => exact ⟨'$', _, rfl, .inl rfl⟩
  | false => exact ⟨c, _, rfl, .inr (hspelled.isUpper c List.mem_cons_self)⟩

theorem IsReferenceText.getLast? (h : IsReferenceText s) : ∃ c ∈ s.getLast?, c.isDigit = true := by
  obtain ⟨col, letters, row, digits, hspelled, rfl, -⟩ := exists_spelled_of_splitReference? h
  have hlast := List.getLast?_eq_some_getLast hspelled.digits_ne_nil
  refine ⟨_, ?_, hspelled.isDigit _ (List.getLast_mem hspelled.digits_ne_nil)⟩
  rw [Option.mem_def, getLast?_append_right hspelled.digits_ne_nil, hlast]

namespace Token.ReadFrom

variable (h : k.ReadFrom s)
include h

theorem exists_cons : ∃ c r, s = c :: r ∧ (c = '$' ∨ c.isUpper = true) := by
  cases h with
  | cell h => exact exists_cons_of_isReferenceText (splitReference?_of_read? h)
  | range hs _ =>
    obtain ⟨c, r, rfl, hc⟩ := exists_cons_of_isReferenceText (splitReference?_of_read? hs)
    exact ⟨c, _, rfl, hc⟩

theorem getLast? : ∃ c ∈ s.getLast?, c.isDigit = true := by
  cases h with
  | cell h => exact IsReferenceText.getLast? (splitReference?_of_read? h)
  | @range s t _ _ _ ht =>
    have hlast := IsReferenceText.getLast? (splitReference?_of_read? ht)
    have hne := (splitReference?_eq_some (splitReference?_of_read? ht)).2
    rwa [List.append_cons s ':' t, getLast?_append_right hne]

theorem isRefChar_or_colon : ∀ c ∈ s, isRefChar c = true ∨ c = ':' := by
  have href {s : Text} {r : Reference} (h : Reference.read? s = some r) :
      ∀ c ∈ s, isRefChar c = true := isRefChar_of_splitReference? (splitReference?_of_read? h)
  intro c hc
  cases h with
  | cell h => exact .inl (href h c hc)
  | range hs ht =>
    rcases List.mem_append.1 hc with hc | hc
    · exact .inl (href hs c hc)
    · exact (List.mem_cons.1 hc).symm.imp_left (href ht c)

theorem not_mem (hc : isRefChar c = false) (hcolon : c ≠ ':') : c ∉ s := by
  intro hmem
  rcases h.isRefChar_or_colon c hmem with href | rfl
  · rw [hc] at href
    cases href
  · exact hcolon rfl

end Token.ReadFrom

end Tokens

/-- Each token of the pieces is read off its text, and may end where it does. -/
inductive Delimited : List Piece → Prop
  | nil : Delimited []
  | plain {c : Char} {ps : List Piece} (h : Delimited ps) : Delimited (.plain c :: ps)
  | token {s : Text} {k : Token} {ps : List Piece} (hread : k.ReadFrom s)
      (hcloses : closesToken (join ps).head? = true) (h : Delimited ps) :
      Delimited (.token s k :: ps)

namespace Delimited

theorem tail {p : Piece} (h : Delimited (p :: ps)) : Delimited ps := by
  cases h with
  | plain h => exact h
  | token _ _ h => exact h

theorem of_append (h : Delimited (qs ++ ps)) : Delimited ps := by
  induction qs with
  | nil => exact h
  | cons p qs ih => exact ih h.tail

theorem ofText_append (h : Delimited ps) (w : Text) : Delimited (Piece.ofText w ++ ps) := by
  induction w with
  | nil => exact h
  | cons c w ih => exact .plain ih

theorem firstAlone_append (h : Delimited ps) (k : Candidate)
    (hcloses : closesToken (t ++ join ps).head? = true) : Delimited (k.firstAlone t ++ ps) := by
  unfold Candidate.firstAlone
  split
  · rename_i r hr
    rw [List.cons_append]
    exact .token (.cell hr) (by rwa [join_ofText_append]) (h.ofText_append t)
  · exact h.ofText_append _

theorem pieces_append (h : Delimited ps) (k : Candidate) (hrest : join ps = k.rest)
    (before : Option Char) : Delimited (k.pieces before ++ ps) := by
  unfold Candidate.pieces
  split
  · split
    · split
      · rename_i hcloses
        exact h.firstAlone_append k (by rwa [hrest])
      · exact h.ofText_append _
    · rename_i s hsecond
      split
      · rename_i hcloses
        rw [← hrest] at hcloses
        split
        · rename_i a b ha hb
          have htext : k.text = k.first ++ ':' :: s := by simp [Candidate.text, hsecond]
          exact .token (htext ▸ .range ha hb) hcloses h
        · exact h.ofText_append _
      · exact h.firstAlone_append k rfl
  · exact h.ofText_append _

theorem readFrom_of_mem (h : Delimited ps) (hs : .token s k ∈ ps) : k.ReadFrom s := by
  induction h with
  | nil => cases hs
  | plain _ ih => exact ih ((List.mem_cons.1 hs).resolve_left nofun)
  | token hread _ _ ih =>
    rcases List.mem_cons.1 hs with hs | hs
    · obtain ⟨rfl, rfl⟩ := Piece.token.inj hs
      exact hread
    · exact ih hs

/-- Where a name goes up to an opening parenthesis, no token is part of it. -/
theorem exists_of_join_eq (h : Delimited ps) (hjoin : join ps = w ++ '(' :: t)
    (hw : ∀ c ∈ w, isNameChar c = true) :
    ∃ qs, ps = Piece.ofText (w ++ ['(']) ++ qs ∧ join qs = t := by
  induction h generalizing w with
  | nil => cases w <;> cases hjoin
  | @plain c ps _ ih =>
    cases w with
    | nil =>
      obtain ⟨rfl, rfl⟩ := List.cons.inj hjoin
      exact ⟨ps, rfl, rfl⟩
    | cons d w =>
      obtain ⟨rfl, hrest⟩ := List.cons.inj hjoin
      obtain ⟨qs, rfl, hqs⟩ := ih hrest (List.forall_mem_cons.1 hw).2
      exact ⟨qs, rfl, hqs⟩
  | @token s k ps hread hcloses _ _ =>
    exfalso
    rw [join_token] at hjoin
    rcases List.append_eq_append_iff.1 hjoin with ⟨z, rfl, hrest⟩ | ⟨z, hs, hrest⟩
    · rw [hrest] at hcloses
      cases z with
      | nil => cases hcloses
      | cons d z => simp [closesToken, hw d (by simp)] at hcloses
    · cases z with
      | nil =>
        rw [List.nil_append] at hrest
        rw [← hrest] at hcloses
        cases hcloses
      | cons d z =>
        obtain ⟨rfl, -⟩ := List.cons.inj hrest
        refine hread.not_mem (c := '(') rfl (by decide) ?_
        have hs : s = w ++ '(' :: z := hs
        simp [hs]

end Delimited

/-- The tokens of a text are delimited. -/
theorem delimited_scanFrom (before : Option Char) (q : Bool) (t : Text) :
    Delimited (scanFrom before q t) := by
  fun_induction scanFrom before q t with
  | case1 => exact .nil
  | case2 before q r ih => exact .plain ih
  | case3 before c r hc ih => exact .plain ih
  | case4 before q c r hc hq hk ih => exact .plain ih
  | case5 before q c r hc hq k hk _ ih => exact ih.pieces_append k (join_scanFrom _ _ _) before

theorem read?_of_mem_scanFrom {before : Option Char} {r : Reference}
    (h : .token s (.cell r) ∈ scanFrom before q t) : Reference.read? s = some r := by
  cases (delimited_scanFrom before q t).readFrom_of_mem h with
  | cell h => exact h

end Spreadsheet.Formula
