import Spreadsheet.Proofs.Formula.CutAlike
import Spreadsheet.Proofs.Formula.Substitution
import Spreadsheet.Proofs.Formula.Trim

/-!
A formula that moves, and the values it reads. The moved text is cut like the old one, blanks around
it included, so the two are told apart from references, ranges and literals alike, and what they read
is written to the same places. Main statement: a formula without calls shows after the move, in any
other sheet, what it showed before, if the moved references read the same values in order.
-/
namespace Spreadsheet

variable {α β : Type}

/-- What comes out of a query: a result, or the error that is shown for its failure. -/
def Context.shows (x : Context) (q : Query α) (p : Progress) : Except CellError α :=
  (x.answer q p).1.mapError FormulaError.shown

namespace Context

theorem shows_computed (x : Context) (c : Cell) (next : Value → Query α) (p : Progress) :
    x.shows (.computed c next) p = x.shows (next (x.cellValue c p).1) (x.cellValue c p).2 := by
  rw [shows, shows, answer_computed]

theorem shows_bind_ofExcept (x : Context) (q : Query α) (f : α → Except FormulaError β)
    (p : Progress) : x.shows (q >>= fun a => .ofExcept (f a)) p =
      (x.shows q p).bind fun a => (f a).mapError FormulaError.shown := by
  unfold shows
  rcases h : x.answer q p with ⟨e | a, p'⟩
  · rw [answer_bind_of_error h]
    rfl
  · rw [answer_bind_of_ok h]
    cases hf : f a <;> simp [Query.ofExcept, answer, Query.run, Except.mapError, Except.bind, hf]

end Context

namespace Formula

open Text

variable {s t w w' : Text} {k : Token} {ps ps' : List Piece} {x y : Context}
  {p q : Progress} {rows cols : Int}

section Substitute

theorem shows_substitutePieces_plain (x : Context) (c : Char) (ps : List Piece) (p : Progress) :
    x.shows (substitutePieces (.plain c :: ps)) p =
      (x.shows (substitutePieces ps) p).bind fun u => .ok (c :: u) :=
  x.shows_bind_ofExcept (substitutePieces ps) (fun u => .ok (c :: u)) p

/-- Texts cut alike leave the same text if they read the same values, or both fail alike. -/
theorem CutAlike.shows_substitutePieces (h : CutAlike ps ps')
    (hreads : (x.cellValues (cells ps) p).1 = (y.cellValues (cells ps') q).1) :
    x.shows (substitutePieces ps) p = y.shows (substitutePieces ps') q := by
  induction h generalizing p q with
  | nil => rfl
  | plain _ ih => rw [shows_substitutePieces_plain, shows_substitutePieces_plain, ih hreads]
  | @token s s' k k' ps ps' hkind _ _ _ _ _ ih =>
    cases k with
    | range a b =>
      cases k' with
      | cell r' => cases hkind
      | range a' b' => rfl
    | cell r =>
      cases k' with
      | range a' b' => cases hkind
      | cell r' =>
        have hvalue : (x.cellValue r.cell p).1 = (y.cellValue r'.cell q).1 :=
          (List.cons.inj hreads).1
        have hcells : (x.cellValues (cells ps) (x.cellValue r.cell p).2).1 =
            (y.cellValues (cells ps') (y.cellValue r'.cell q).2).1 := (List.cons.inj hreads).2
        have hrest := ih hcells
        change x.shows (.computed r.cell fun v => Query.ofExcept (cellLiteral v) >>= fun t =>
            substitutePieces ps >>= fun u => .ofExcept (.ok (t ++ u))) p =
          y.shows (.computed r'.cell fun v => Query.ofExcept (cellLiteral v) >>= fun t =>
            substitutePieces ps' >>= fun u => .ofExcept (.ok (t ++ u))) q
        rw [Context.shows_computed, Context.shows_computed, hvalue]
        cases cellLiteral (y.cellValue r'.cell q).1 with
        | error e => rfl
        | ok lit =>
          change x.shows (substitutePieces ps >>= fun u => .ofExcept (.ok (lit ++ u))) _ =
            y.shows (substitutePieces ps' >>= fun u => .ofExcept (.ok (lit ++ u))) _
          rw [Context.shows_bind_ofExcept, Context.shows_bind_ofExcept, hrest]

end Substitute

section Kinds

theorem CutAlike.exists_token (h : CutAlike [.token s k] (scan w)) :
    ∃ k' : Token, k'.isRange = k.isRange ∧ k'.ReadFrom w := by
  have hjoin := join_scan w
  generalize scan w = ps at h hjoin
  cases h with
  | @token _ s' _ k' _ _ hkind _ hread' _ _ hnil =>
    cases hnil
    rw [join_token, join, List.flatMap_nil, List.append_nil] at hjoin
    exact ⟨k', hkind, hjoin ▸ hread'⟩

theorem CutAlike.exists_reference (h : CutAlike (scan w) (scan w')) {r : Reference}
    (hr : Reference.read? w = some r) : ∃ r', Reference.read? w' = some r' := by
  rw [scan_of_reference hr] at h
  obtain ⟨k', hkind, hread⟩ := h.exists_token
  cases hread with
  | cell h => exact ⟨_, h⟩
  | range _ _ => cases hkind

theorem isSome_read?_of_readFrom {a b : Reference} (h : Token.ReadFrom s (.range a b)) :
    (Range.read? s).isSome = true := by
  cases h with
  | @range s t _ _ hs ht =>
    have hcolon : ':' ∉ s := by
      intro hmem
      have href := isRefChar_of_splitReference? (splitReference?_of_read? hs) _ hmem
      cases href
    have hcut : cutAt? ':' (s ++ ':' :: t) = some (s, t) := cutAt?_eq_some_iff.2 ⟨rfl, hcolon⟩
    simp [Range.read?, hcut, hs, ht]

theorem CutAlike.isSome_range (h : CutAlike (scan w) (scan w'))
    (hr : (Range.read? w).isSome = true) : (Range.read? w').isSome = true := by
  obtain ⟨area, harea⟩ := Option.isSome_iff_exists.1 hr
  obtain ⟨a, b, hscan, -⟩ := exists_scan_of_range harea
  rw [hscan] at h
  obtain ⟨k', hkind, hread⟩ := h.exists_token
  cases k' with
  | cell r => cases hkind
  | range a' b' => exact isSome_read?_of_readFrom hread

theorem forall_plain_of_escape (s : Text) (before : Option Char) :
    ∀ p ∈ scanFrom before true (escape s ++ ['"']), ∃ c, p = .plain c := by
  induction s generalizing before with
  | nil =>
    rw [escape, List.nil_append, scanFrom_quote, scanFrom]
    exact List.forall_mem_singleton.2 ⟨_, rfl⟩
  | cons c s ih =>
    by_cases hc : c = '"'
    · rw [escape, if_pos hc, List.cons_append, List.cons_append, scanFrom_quote, scanFrom_quote]
      exact List.forall_mem_cons.2 ⟨⟨_, rfl⟩, List.forall_mem_cons.2 ⟨⟨_, rfl⟩, ih _⟩⟩
    · rw [escape, if_neg hc, List.cons_append, scanFrom_of_quoted before hc]
      exact List.forall_mem_cons.2 ⟨⟨_, rfl⟩, ih _⟩

theorem tokens_of_literal (h : literal? w = some s) : tokens w = [] := by
  rw [← tokens_trim, bareLiteral?_eq_some_iff.1 h]
  refine List.filterMap_eq_nil_iff.2 fun p hp => ?_
  rw [quote, scan, List.cons_append, scanFrom_quote] at hp
  rcases List.mem_cons.1 hp with rfl | hp
  · rfl
  · obtain ⟨c, rfl⟩ := forall_plain_of_escape s _ p hp
    rfl

theorem CutAlike.eq_of_tokens_eq_nil (h : CutAlike (scan w) (scan w')) (ht : tokens w = []) :
    w' = w := by
  rw [scan_of_tokens_eq_nil ht, ← List.append_nil (Piece.ofText w)] at h
  obtain ⟨qs, hscan, hqs⟩ := h.exists_append
  cases hqs
  rw [← join_scan w', hscan, join_ofText_append, join, List.flatMap_nil, List.append_nil]

end Kinds

/-- No function of the library is called: not as the whole of a text, and not inside it. -/
structure NoCalls (t : Text) : Prop where
  inside : ∀ name args, .call name args ∉ segments LibraryFunction.isKnown t
  whole : ∀ name args, wholeCall? t = some (name, args) → LibraryFunction.isKnown name = false

section Values

variable {o o' : Options} {eval eval' : Text → Query Value}

theorem CutAlike.shows_expressionValue (h : CutAlike (scan w) (scan w'))
    (hcalls : ∀ name args, .call name args ∉ segments LibraryFunction.isKnown w)
    (hreads : (x.cellValues (cells (scan w)) p).1 = (y.cellValues (cells (scan w')) q).1) :
    x.shows (expressionValue o eval w) p = y.shows (expressionValue o' eval' w') q := by
  have hexpand : EndAlike w w' (expandCalls o eval w) (expandCalls o' eval' w') := by
    have hends : EndAlike (join (scan w)) (join (scan w')) (expandCalls o eval (join (scan w)))
        (expandCalls o' eval' (join (scan w'))) :=
      h.endAlike_expandSegments rfl (by rwa [join_scan, ← segments])
    rwa [join_scan, join_scan] at hends
  unfold expressionValue
  generalize expandCalls o eval w = e at hexpand
  generalize expandCalls o' eval' w' = e' at hexpand
  cases hexpand with
  | fail e => rfl
  | done =>
    change
      x.shows (substituteReferences w >>= fun u => .ofExcept (ofScalar (Expression.evaluate u))) p =
        y.shows (substituteReferences w' >>= fun u => .ofExcept (ofScalar (Expression.evaluate u))) q
    have hsubstitute : x.shows (substituteReferences w) p = y.shows (substituteReferences w') q :=
      h.shows_substitutePieces hreads
    rw [Context.shows_bind_ofExcept, Context.shows_bind_ofExcept, hsubstitute]

theorem CutAlike.shows_plainValue (h : CutAlike (scan w) (scan w'))
    (hcalls : ∀ name args, .call name args ∉ segments LibraryFunction.isKnown w)
    (hreads : (x.cellValues (cells (scan w)) p).1 = (y.cellValues (cells (scan w')) q).1) :
    x.shows (plainValue o eval w) p = y.shows (plainValue o' eval' w') q := by
  unfold plainValue
  cases hr : Reference.read? w with
  | some r =>
    obtain ⟨r', hr'⟩ := h.exists_reference hr
    rw [hr']
    rw [scan_of_reference hr, scan_of_reference hr'] at hreads
    have hvalue : (x.cellValue r.cell p).1 = (y.cellValue r'.cell q).1 := (List.cons.inj hreads).1
    dsimp only
    rw [Context.shows_computed, Context.shows_computed, hvalue]
    rfl
  | none =>
    have hr' : Reference.read? w' = none := by
      refine Option.eq_none_iff_forall_ne_some.2 fun r' hr' => ?_
      obtain ⟨r, hsome⟩ := h.symm.exists_reference hr'
      rw [hr] at hsome
      cases hsome
    rw [hr']
    dsimp only
    cases hl : literal? w with
    | some s =>
      rw [h.eq_of_tokens_eq_nil (tokens_of_literal hl), hl]
      rfl
    | none =>
      have hl' : literal? w' = none := by
        refine Option.eq_none_iff_forall_ne_some.2 fun s hs => ?_
        obtain rfl := h.symm.eq_of_tokens_eq_nil (tokens_of_literal hs)
        rw [hl] at hs
        cases hs
      have hrange : (Range.read? w').isSome = (Range.read? w).isSome :=
        Bool.eq_iff_iff.2 ⟨h.symm.isSome_range, h.isSome_range⟩
      rw [hl', hrange]
      dsimp only
      split
      · rfl
      · exact h.shows_expressionValue hcalls hreads

/-- Around a text cut alike, the value is shown alike too. -/
theorem CutAlike.shows_valueWith (h : CutAlike (scan (trim t)) (scan (trim s)))
    (hcalls : NoCalls (trim t))
    (hreads : (x.cellValues (cells (scan (trim t))) p).1 =
      (y.cellValues (cells (scan (trim s))) q).1) :
    x.shows (valueWith o eval t) p = y.shows (valueWith o' eval' s) q := by
  have hnil : trim t = [] ↔ trim s = [] := by
    have hnil := h.join_eq_nil_iff
    rwa [join_scan, join_scan] at hnil
  have hwhole : ∀ name args, wholeCall? (trim s) = some (name, args) →
      LibraryFunction.isKnown name = false := by
    intro name args hcall
    rw [← join_scan (trim s)] at hcall
    obtain ⟨args', hcall'⟩ := h.symm.exists_wholeCall? hcall
    rw [join_scan] at hcall'
    exact hcalls.whole name args' hcall'
  by_cases ht : trim t = []
  · rw [valueWith, valueWith, if_pos ht, if_pos (hnil.1 ht)]
    rfl
  · rw [valueWith_eq_plainValue hcalls.whole ht, valueWith_eq_plainValue hwhole (mt hnil.2 ht)]
    exact h.shows_plainValue hcalls.inside hreads

end Values

section Shift

theorem keepsKinds_shift (rows cols : Int) : KeepsKinds (Piece.shift rows cols) where
  plain _ := rfl
  token s k := by
    cases hk : k.shift? rows cols with
    | none => exact ⟨s, k, by simp [Piece.shift, hk], rfl⟩
    | some k' =>
      refine ⟨k'.text, k', by simp [Piece.shift, hk], ?_⟩
      cases Token.shift?_eq_some_iff.1 hk <;> rfl

theorem cutAlike_shift (t : Text) (rows cols : Int) :
    CutAlike (scan t) (scan (shift t rows cols)) := by
  have hscan (t : Text) : Delimited (scan t) := delimited_scanFrom none false t
  by_cases h : rows = 0 ∧ cols = 0
  · obtain ⟨rfl, rfl⟩ := h
    rw [shift_zero]
    exact (hscan t).cutAlike
  · rw [scan_shift t h]
    refine (keepsKinds_shift rows cols).cutAlike (hscan t) ?_
    rw [← scan_shift t h]
    exact hscan (shift t rows cols)

theorem trim_shift (t : Text) (rows cols : Int) :
    trim (shift t rows cols) = shift (trim t) rows cols := by
  by_cases h : rows = 0 ∧ cols = 0
  · obtain ⟨rfl, rfl⟩ := h
    rw [shift_zero, shift_zero]
  · obtain ⟨a, b, ht, ha, hb⟩ := exists_trim t
    have hmap (w : Text) : (Piece.ofText w).map (Piece.shift rows cols) = Piece.ofText w :=
      (faithful_shift rows cols).map_ofText w
    have hshift : shift t rows cols = a ++ shift (trim t) rows cols ++ b := by
      conv_lhs => rw [ht]
      rw [shift_eq_join _ h, shift_eq_join _ h, scan_between_blanks ha hb, List.map_append,
        List.map_append, hmap, hmap, join_append, join_ofText_append, join_ofText]
    have halike := cutAlike_shift (trim t) rows cols
    have htrimmed := halike.trimmed (by rw [join_scan]; exact trimmed_trim t)
    have hnil := halike.join_eq_nil_iff
    rw [join_scan] at htrimmed
    rw [join_scan, join_scan] at hnil
    by_cases hempty : trim t = []
    · have hblank : shift t rows cols = t := by
        rw [hshift, hnil.1 hempty]
        conv_rhs => rw [ht, hempty]
      rw [hblank, hnil.1 hempty]
      exact hempty
    · rw [hshift, List.append_assoc, trim_append ha hb htrimmed (mt hnil.2 hempty)]

/-- The cells that the tokens name alone, in order. -/
def singles (ks : List Token) : List Cell :=
  ks.filterMap fun
    | .cell r => some r.cell
    | .range _ _ => none

theorem cells_scan (t : Text) : cells (scan t) = singles (tokens t) := by
  rw [singles, tokens, List.filterMap_filterMap, cells]
  congr 1
  funext p
  rcases p with c | ⟨s, r | ⟨a, b⟩⟩ <;> rfl

theorem Token.shift?_zero (k : Token) : k.shift? 0 0 = some k := by
  have hreference (r : Reference) : r.MovesTo 0 0 r := ⟨by simp, by simp, rfl, rfl⟩
  rw [Token.shift?_eq_some_iff]
  cases k with
  | cell r => exact .cell (hreference r)
  | range a b => exact .range (hreference a) (hreference b)

theorem token?_shift (p : Piece) :
    (p.shift rows cols).token? = p.token?.map fun k => (k.shift? rows cols).getD k := by
  cases p with
  | plain c => rfl
  | token s k => cases hk : k.shift? rows cols <;> simp [Piece.shift, Piece.token?, hk]

/-- The tokens of a moved formula are the moved ones, where these stay on the grid. -/
theorem tokens_shift (t : Text) (rows cols : Int) :
    tokens (shift t rows cols) = (tokens t).map fun k => (k.shift? rows cols).getD k := by
  by_cases h : rows = 0 ∧ cols = 0
  · obtain ⟨rfl, rfl⟩ := h
    simp [Token.shift?_zero]
  · rw [tokens_eq, scan_shift t h, List.filterMap_map, tokens_eq, List.map_filterMap]
    congr 1
    funext p
    exact token?_shift p

theorem map_shift_eq {js ks : List Token} (h : List.Forall₂ (Token.MovesTo rows cols) js ks) :
    (js.map fun k => (k.shift? rows cols).getD k) = ks := by
  induction h with
  | nil => rfl
  | cons h _ ih => rw [List.map_cons, ih, Token.shift?_eq_some_iff.2 h, Option.getD_some]

end Shift

/-- A formula without calls shows after a move what it showed before, in any sheet where the moved
references read what the old ones read. -/
theorem shows_value_shift {ks : List Token} (hcalls : NoCalls (trim t))
    (hmoves : List.Forall₂ (Token.MovesTo rows cols) (tokens t) ks)
    (hreads : (x.cellValues (singles (tokens t)) p).1 = (y.cellValues (singles ks) q).1) :
    x.shows (value x.options t) p = y.shows (value y.options (shift t rows cols)) q := by
  have halike : CutAlike (scan (trim t)) (scan (trim (shift t rows cols))) := by
    rw [trim_shift]
    exact cutAlike_shift (trim t) rows cols
  rw [value, value]
  refine halike.shows_valueWith hcalls ?_
  rwa [cells_scan, cells_scan, tokens_trim, tokens_trim, tokens_shift, map_shift_eq hmoves]

def beforeMove : Context := .untracked (.ofRows #[#[.number 4, .number 5]]) .standard

def afterMove : Context :=
  .untracked (.ofRows #[#[.text "x", .number 5], #[.empty, .number 4]]) .standard

/-- The first reference goes along, the anchored one stays. -/
theorem shows_value_shift_anchored :
    shift "-A1+$B$1*2 ".toList 1 1 = "-B2+$B$1*2 ".toList ∧
      beforeMove.shows (value beforeMove.options "-A1+$B$1*2 ".toList) .start =
        afterMove.shows (value afterMove.options "-B2+$B$1*2 ".toList) .start := by
  have hshift : shift "-A1+$B$1*2 ".toList 1 1 = "-B2+$B$1*2 ".toList := by decide +kernel
  have htokens : tokens "-A1+$B$1*2 ".toList =
      [.cell ⟨⟨0, 0⟩, false, false⟩, .cell ⟨⟨0, 1⟩, true, true⟩] := by decide +kernel
  have hcalls : NoCalls (trim "-A1+$B$1*2 ".toList) := by
    have hsegments : segments LibraryFunction.isKnown (trim "-A1+$B$1*2 ".toList) =
        (trim "-A1+$B$1*2 ".toList).map .plain := by decide +kernel
    have hwhole : wholeCall? (trim "-A1+$B$1*2 ".toList) = none := by decide +kernel
    constructor
    · intro name args hmem
      rw [hsegments] at hmem
      obtain ⟨c, -, hc⟩ := List.mem_map.1 hmem
      cases hc
    · rw [hwhole]
      exact fun _ _ => nofun
  have hmoves : List.Forall₂ (Token.MovesTo 1 1) (tokens "-A1+$B$1*2 ".toList)
      [.cell ⟨⟨1, 1⟩, false, false⟩, .cell ⟨⟨0, 1⟩, true, true⟩] := by
    rw [htokens]
    exact .cons (Token.shift?_eq_some_iff.1 (by decide))
      (.cons (Token.shift?_eq_some_iff.1 (by decide)) .nil)
  have hreads : (beforeMove.cellValues (singles (tokens "-A1+$B$1*2 ".toList)) .start).1 =
      (afterMove.cellValues
        (singles [.cell ⟨⟨1, 1⟩, false, false⟩, .cell ⟨⟨0, 1⟩, true, true⟩]) .start).1 := by
    rw [htokens]
    decide +kernel
  have hshows := shows_value_shift hcalls hmoves hreads
  rw [hshift] at hshows
  exact ⟨hshift, hshows⟩

end Formula

end Spreadsheet
