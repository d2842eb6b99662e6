import Spreadsheet.Proofs.Formula.Apart

/-!
Blanks around a formula. A character that begins neither a reference nor a string literal is a piece
by itself, whatever stands around it. So trimming a text takes nothing but blanks off its pieces,
and none of its tokens.
-/
namespace Spreadsheet.Formula

open Text

variable {t a b x : Text} {c : Char}

/-- Neither a reference nor a string literal begins with the character. -/
def isClear (c : Char) : Bool := !(c.isUpper || c == '$' || c == '"')

theorem isClear_iff : isClear c = true ↔ c.isUpper = false ∧ c ≠ '$' ∧ c ≠ '"' := by
  simp [isClear, and_assoc]

theorem isClear_of_isBlank (h : isBlank c = true) : isClear c = true := by
  have hword := isWord_of_isBlank h
  have hdollar := (isEdge_iff.1 (isEdge_of_isBlank h)).2.1
  obtain ⟨hup, -, -⟩ := not_isRefChar_iff.1 (isRefChar_of_isWord hword hdollar)
  refine isClear_iff.2 ⟨hup, hdollar, ?_⟩
  rintro rfl
  exact absurd h (by decide)

theorem scanFrom_of_clear (h : ∀ c ∈ x, isClear c = true) (before : Option Char) (q : Bool)
    (w : Text) : scanFrom before q (x ++ w) =
      Piece.ofText x ++ scanFrom (x.getLast?.or before) q w := by
  induction x generalizing before with
  | nil => rfl
  | cons c x ih =>
    obtain ⟨hc, hx⟩ := List.forall_mem_cons.1 h
    obtain ⟨hup, hdollar, hquote⟩ := isClear_iff.1 hc
    have hstep : scanFrom before q (c :: (x ++ w)) = .plain c :: scanFrom (some c) q (x ++ w) := by
      cases q with
      | true => exact scanFrom_of_quoted before hquote
      | false =>
        refine scanFrom_of_none before hquote (candidate_eq_none ?_)
        refine splitReference?_of_head fun d hd => ?_
        obtain rfl := Option.some.inj hd
        exact ⟨hup, hdollar⟩
    rw [List.cons_append, hstep, ih hx, getLast?_cons_or]
    rfl

theorem scanFrom_eq_ofText (h : ∀ c ∈ t, isClear c = true) (before : Option Char) (q : Bool) :
    scanFrom before q t = Piece.ofText t := by
  have hscan := scanFrom_of_clear h before q []
  rwa [List.append_nil, scanFrom, List.append_nil] at hscan

/-- The blanks around a text are pieces by themselves. -/
theorem scan_between_blanks (ha : ∀ c ∈ a, isBlank c = true) (hb : ∀ c ∈ b, isBlank c = true)
    (t : Text) : scan (a ++ t ++ b) = Piece.ofText a ++ scan t ++ Piece.ofText b := by
  rw [scan_of_part (quotedAfter_of_blank ha), scanFrom_eq_ofText, scanFrom_eq_ofText]
  · exact fun c hc => isClear_of_isBlank (hb c hc)
  · exact fun c hc => isClear_of_isBlank (ha c hc)
  · exact fun c hc => isEdge_of_isBlank (ha c (List.mem_of_getLast? hc))
  · intro c hc
    have hblank := hb c (List.mem_of_mem_head? hc)
    refine ⟨isEdge_of_isBlank hblank, ?_⟩
    rintro rfl
    exact absurd hblank (by decide)

/-- The token that a piece is, if it is one. -/
def Piece.token? : Piece → Option Token
  | .plain _ => none
  | .token _ k => some k

theorem tokens_eq (t : Text) : tokens t = (scan t).filterMap Piece.token? := rfl

theorem filterMap_token?_ofText (w : Text) : (Piece.ofText w).filterMap Piece.token? = [] := by
  refine List.filterMap_eq_nil_iff.2 fun p hp => ?_
  obtain ⟨c, -, rfl⟩ := List.mem_map.1 hp
  rfl

theorem tokens_trim (t : Text) : tokens (trim t) = tokens t := by
  obtain ⟨a, b, ht, ha, hb⟩ := exists_trim t
  have hscan := scan_between_blanks ha hb (trim t)
  rw [← ht] at hscan
  rw [tokens_eq, tokens_eq t, hscan, List.filterMap_append, List.filterMap_append,
    filterMap_token?_ofText, filterMap_token?_ofText, List.nil_append, List.append_nil]

theorem eq_ofText_join {ps : List Piece} (h : ∀ p ∈ ps, ∃ c, p = .plain c) :
    ps = Piece.ofText (join ps) := by
  induction ps with
  | nil => rfl
  | cons p ps ih =>
    obtain ⟨⟨c, rfl⟩, hps⟩ := List.forall_mem_cons.1 h
    exact congrArg (.plain c :: ·) (ih hps)

theorem scan_of_tokens_eq_nil (h : tokens t = []) : scan t = Piece.ofText t := by
  have hscan : scan t = Piece.ofText (join (scan t)) := eq_ofText_join fun p hp => by
    cases p with
    | plain c => exact ⟨c, rfl⟩
    | token s k =>
      have hk : k ∈ tokens t := mem_tokens.2 ⟨s, hp⟩
      rw [h] at hk
      cases hk
  rwa [join_scan] at hscan

end Spreadsheet.Formula
