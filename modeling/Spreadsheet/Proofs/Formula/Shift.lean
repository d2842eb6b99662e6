import Mathlib.Data.List.Forall2
import Spreadsheet.Formula.Shift
import Spreadsheet.Proofs.Formula.Scan
import Spreadsheet.Proofs.Reference

/-!
Rewriting the tokens of a formula. Where each token is replaced by the text of a token of its kind,
the new text is cut at the same places as the old one, whatever stands around the tokens: a
replacement starts and ends like a reference, and what follows a token does not continue it. Main
statement: a formula that moves keeps its pieces, each token with its relative components moved.
-/
namespace Spreadsheet.Formula

open Text
open Reference (anchor Spelled)

variable {a b s t x y : Text} {c : Char} {before : Option Char} {k : Candidate} {r : Reference}

/-- The whole text has the shape of a reference. -/
def IsReferenceText (a : Text) : Prop := splitReference? a = some (a, [])

theorem splitReference?_spelled {letters digits : Text} (h : Spelled letters digits)
    (col row : Bool) (hb : ∀ c ∈ b.head?, c.isDigit = false) :
    splitReference? (anchor col ++ letters ++ anchor row ++ digits ++ b) =
      some (anchor col ++ letters ++ anchor row ++ digits, b) := by
  have hassoc : anchor col ++ letters ++ anchor row ++ digits ++ b =
      anchor col ++ (letters ++ (anchor row ++ (digits ++ b))) := by
    simp only [List.append_assoc]
  rw [splitReference?, hassoc]
  simp only [h.splitAnchor_col, h.splitWhile_letters, h.splitAnchor_row,
    splitWhile_append_of_all h.isDigit hb]
  exact if_pos ⟨h.letters_ne_nil, h.digits_ne_nil⟩

theorem exists_spelled_of_splitReference? (h : splitReference? t = some (a, b)) :
    ∃ col letters row digits, Spelled letters digits ∧
      a = anchor col ++ letters ++ anchor row ++ digits ∧ ∀ c ∈ b.head?, c.isDigit = false := by
  simp only [splitReference?, Option.ite_none_right_eq_some, Option.some.injEq, Prod.mk.injEq] at h
  obtain ⟨⟨hletters, hdigits⟩, rfl, rfl⟩ := h
  refine ⟨_, _, _, _, ⟨hletters, ?_, hdigits, ?_⟩, rfl, ?_⟩
  · exact fun c hc => List.all_eq_true.1 List.all_takeWhile c hc
  · exact fun c hc => List.all_eq_true.1 List.all_takeWhile c hc
  · intro c hc
    have hhead := List.head?_dropWhile_not Char.isDigit
      (Reference.splitAnchor (splitWhile Char.isUpper (Reference.splitAnchor t).2).2).2
    rw [splitWhile, Option.mem_def] at hc
    rw [hc] at hhead
    simpa using hhead

/-- A reference is read off a text as far as it goes: up to the last of its digits. -/
theorem splitReference?_append_eq_some_iff :
    splitReference? (a ++ b) = some (a, b) ↔
      IsReferenceText a ∧ ∀ c ∈ b.head?, c.isDigit = false := by
  constructor
  · intro h
    obtain ⟨col, letters, row, digits, hspelled, rfl, hb⟩ := exists_spelled_of_splitReference? h
    refine ⟨?_, hb⟩
    have hnil := splitReference?_spelled (b := []) hspelled col row (by simp)
    rwa [List.append_nil] at hnil
  · rintro ⟨ha, hb⟩
    obtain ⟨col, letters, row, digits, hspelled, rfl, -⟩ := exists_spelled_of_splitReference? ha
    exact splitReference?_spelled hspelled col row hb

theorem opensToken_of_isRefChar (h : isRefChar c = true) : opensToken (some c) = false := by
  have halpha : c.isAlpha = (c.isUpper || c.isLower) := rfl
  simp only [isRefChar, Bool.or_eq_true] at h
  simp only [opensToken, isNameChar, Char.isAlphanum, halpha, Option.all_some, Bool.not_eq_false',
    Bool.or_eq_true]
  tauto

/-- Two texts that begin with the same reference characters, and whose next characters are the
same. -/
inductive Alike : Text → Text → Prop
  | nil : Alike [] []
  | stop {c : Char} (hc : isRefChar c = false) (x y : Text) : Alike (c :: x) (c :: y)
  | cons {c : Char} {x y : Text} (hc : isRefChar c = true) (h : Alike x y) :
      Alike (c :: x) (c :: y)

namespace Alike

theorem append (ha : ∀ c ∈ a, isRefChar c = true) (h : Alike x y) : Alike (a ++ x) (a ++ y) := by
  induction a with
  | nil => exact h
  | cons c a ih =>
    obtain ⟨hc, ha⟩ := List.forall_mem_cons.1 ha
    exact .cons hc (ih ha)

theorem head?_eq (h : Alike x y) : x.head? = y.head? := by
  cases h <;> rfl

theorem exists_append (h : Alike x y) : ∃ p v w, x = p ++ v ∧ y = p ++ w ∧
    (∀ c ∈ v.head?, isRefChar c = false) ∧ ∀ c ∈ w.head?, isRefChar c = false := by
  induction h with
  | nil => exact ⟨[], [], [], rfl, rfl, by simp, by simp⟩
  | @stop c hc x y => exact ⟨[], c :: x, c :: y, rfl, rfl, by simpa using hc, by simpa using hc⟩
  | @cons c x y hc h ih =>
    obtain ⟨p, v, w, rfl, rfl, hv, hw⟩ := ih
    exact ⟨c :: p, v, w, rfl, rfl, hv, hw⟩

/-- A reference begins one of two such texts only if it begins the other. -/
theorem splitReference?_eq_none (h : Alike x y) (hx : splitReference? x = none) :
    splitReference? y = none := by
  obtain ⟨p, v, w, rfl, rfl, hv, hw⟩ := h.exists_append
  rw [splitReference?_append (.inr hv), Option.map_eq_none_iff] at hx
  rw [splitReference?_append (.inr hw), hx, Option.map_none]

end Alike

/-- What a candidate is, whatever text it was read off. -/
structure Candidate.Valid (k : Candidate) : Prop where
  first : IsReferenceText k.first
  second : ∀ s ∈ k.second, IsReferenceText s
  rest : ∀ c ∈ k.rest.head?, c.isDigit = false
  alone : k.second = none → ∀ x, k.rest = ':' :: x → splitReference? x = none

theorem Candidate.valid_of_read? (h : Candidate.read? t = some k) : k.Valid := by
  obtain ⟨⟨first, x⟩, hs, he⟩ := Option.map_eq_some_iff.1 h
  rw [(splitReference?_eq_some hs).1] at hs
  obtain ⟨hfirst, hx⟩ := splitReference?_append_eq_some_iff.1 hs
  dsimp only at he
  split at he
  · rename_i y
    cases hy : splitReference? y with
    | none =>
      rw [hy] at he
      subst he
      refine ⟨hfirst, by simp, hx, ?_⟩
      rintro - z hz
      rwa [← (List.cons.inj hz).2]
    | some p =>
      obtain ⟨second, rest⟩ := p
      rw [hy] at he
      subst he
      rw [(splitReference?_eq_some hy).1] at hy
      obtain ⟨hsecond, hrest⟩ := splitReference?_append_eq_some_iff.1 hy
      refine ⟨hfirst, ?_, hrest, by simp⟩
      rintro s hs
      rwa [← Option.some.inj hs]
  · rename_i hcolon
    subst he
    exact ⟨hfirst, by simp, hx, fun _ y hy => absurd hy (hcolon y)⟩

theorem Candidate.Valid.read?_append (hk : k.Valid) :
    Candidate.read? (k.text ++ k.rest) = some k := by
  obtain ⟨first, second, rest⟩ := k
  cases second with
  | none =>
    have hs := splitReference?_append_eq_some_iff.2 ⟨hk.first, hk.rest⟩
    rw [read?, text, hs]
    simp only [Option.map_some, Option.some.injEq]
    split
    · rename_i y
      rw [hk.alone rfl y rfl]
    · rfl
  | some s =>
    have hs : splitReference? (first ++ ':' :: (s ++ rest)) = some (first, ':' :: (s ++ rest)) :=
      splitReference?_append_eq_some_iff.2 ⟨hk.first, by simp⟩
    have hs' := splitReference?_append_eq_some_iff.2 ⟨hk.second s rfl, hk.rest⟩
    simp [read?, text, hs, hs']

theorem Candidate.read?_eq_some_iff :
    Candidate.read? t = some k ↔ t = k.text ++ k.rest ∧ k.Valid := by
  constructor
  · exact fun h => ⟨(Candidate.read?_eq_some h).1, Candidate.valid_of_read? h⟩
  · rintro ⟨rfl, hk⟩
    exact hk.read?_append

theorem Candidate.Valid.opensToken_getLast? (hk : k.Valid) :
    opensToken k.text.getLast? = false := by
  have hread := hk.read?_append
  have hlast := List.getLast?_eq_some_getLast (Candidate.read?_eq_some hread).2
  rw [hlast]
  exact opensToken_of_isRefChar (Candidate.isRefChar_of_getLast? hread hlast)

/-- A change of pieces that replaces the text of each token by that of a token of its kind. -/
structure Faithful (f : Piece → Piece) : Prop where
  plain : ∀ c, f (.plain c) = .plain c
  cell : ∀ {s r}, Reference.read? s = some r → ∃ s' r', f (.token s (.cell r)) = .token s' (.cell r') ∧
    Reference.read? s' = some r'
  range : ∀ {s t r₁ r₂}, Reference.read? s = some r₁ → Reference.read? t = some r₂ →
    ∃ s' t' r₁' r₂', f (.token (s ++ ':' :: t) (.range r₁ r₂)) =
        .token (s' ++ ':' :: t') (.range r₁' r₂') ∧
      Reference.read? s' = some r₁' ∧ Reference.read? t' = some r₂'

namespace Faithful

variable {f : Piece → Piece}

theorem map_ofText (hf : Faithful f) (t : Text) : (Piece.ofText t).map f = Piece.ofText t := by
  simp [Piece.ofText, hf.plain]

theorem join_cons (hf : Faithful f) (c : Char) (ps : List Piece) :
    join ((Piece.plain c :: ps).map f) = c :: join (ps.map f) := by
  rw [List.map_cons, hf.plain]
  rfl

theorem join_append (ps qs : List Piece) :
    join ((ps ++ qs).map f) = join (ps.map f) ++ join (qs.map f) := by
  rw [List.map_append, join, List.flatMap_append]
  rfl

theorem alike (hf : Faithful f) (t : Text) (h : opensToken before = false) :
    Alike t (join ((scanFrom before false t).map f)) := by
  generalize hq : false = q
  fun_induction scanFrom before q t with
  | case1 => exact .nil
  | case2 before q r ih =>
    rw [hf.join_cons]
    exact .stop (by decide) _ _
  | case3 => cases hq
  | case4 before q c r hc _ hk ih =>
    rw [hf.join_cons]
    by_cases href : isRefChar c = true
    · exact .cons href (ih (opensToken_of_isRefChar href) hq)
    · exact .stop (Bool.eq_false_iff.2 href) _ _
  | case5 before q c r hc _ k hk _ ih =>
    have hpieces : k.pieces before = Piece.ofText k.text := by
      rw [Candidate.pieces, h, if_neg Bool.false_ne_true]
    obtain ⟨⟨hne, hfirst⟩, -⟩ := Candidate.isRefChar_of_read? hk
    rw [join_append, hpieces, hf.map_ofText, join, Piece.flatMap_text_ofText,
      (Candidate.read?_eq_some hk).1]
    cases hsecond : k.second with
    | none =>
      have htext : k.text = k.first := by simp [Candidate.text, hsecond]
      have hopens : opensToken k.text.getLast? = false := by
        rw [htext, List.getLast?_eq_some_getLast hne]
        exact opensToken_of_isRefChar (hfirst _ (List.getLast_mem hne))
      have halike := (ih hopens hq).append hfirst
      rwa [← htext] at halike
    | some s =>
      have htext : k.text = k.first ++ ':' :: s := by simp [Candidate.text, hsecond]
      rw [htext, List.append_assoc, List.append_assoc]
      exact (Alike.stop (by decide) _ _).append hfirst

/-- A change makes no reference at the beginning of a text where there was none. -/
theorem splitReference?_eq_none (hf : Faithful f) (before : Option Char)
    (h : splitReference? t = none) :
    splitReference? (join ((scanFrom before false t).map f)) = none := by
  cases t with
  | nil =>
    rw [scanFrom]
    exact h
  | cons c r =>
    refine Alike.splitReference?_eq_none ?_ h
    by_cases hc : c = '"'
    · rw [hc, scanFrom_quote, hf.join_cons]
      exact .stop (by decide) _ _
    · have hk : Candidate.read? (c :: r) = none := by rw [Candidate.read?, h, Option.map_none]
      rw [scanFrom_of_none before hc hk, hf.join_cons]
      by_cases href : isRefChar c = true
      · exact .cons href (hf.alike r (opensToken_of_isRefChar href))
      · exact .stop (Bool.eq_false_iff.2 href) _ _

theorem exists_firstAlone (hf : Faithful f) (hfirst : IsReferenceText k.first) :
    ∃ first, IsReferenceText first ∧ ∀ second rest tail,
      Candidate.firstAlone ⟨first, second, rest⟩ tail = (k.firstAlone tail).map f := by
  cases hread : Reference.read? k.first with
  | none =>
    refine ⟨k.first, hfirst, fun second rest tail => ?_⟩
    simp only [Candidate.firstAlone, hread, hf.map_ofText]
  | some r =>
    obtain ⟨first, r', hcell, hread'⟩ := hf.cell hread
    refine ⟨first, splitReference?_of_read? hread', fun second rest tail => ?_⟩
    simp only [Candidate.firstAlone, hread, hread', List.map_cons, hcell, hf.map_ofText]

theorem exists_candidate (hf : Faithful f) (hk : k.Valid) (before : Option Char) :
    ∃ k' : Candidate, k'.Valid ∧ k'.rest = k.rest ∧
      k'.pieces before = (k.pieces before).map f := by
  have hkeep (h : k.pieces before = Piece.ofText k.text) : ∃ k' : Candidate, k'.Valid ∧
      k'.rest = k.rest ∧ k'.pieces before = (k.pieces before).map f :=
    ⟨k, hk, rfl, by rw [h, hf.map_ofText]⟩
  obtain ⟨first, hfirst, halone⟩ := hf.exists_firstAlone hk.first
  by_cases hopens : opensToken before = true
  · cases hsecond : k.second with
    | none =>
      by_cases hcloses : closesToken k.rest.head? = true
      · refine ⟨⟨first, none, k.rest⟩, ⟨hfirst, by simp, hk.rest, fun _ => hk.alone hsecond⟩, rfl, ?_⟩
        simp [Candidate.pieces, hopens, hcloses, hsecond, halone]
      · apply hkeep
        simp [Candidate.pieces, hcloses, hsecond]
    | some s =>
      have hs := hk.second s hsecond
      by_cases hcloses : closesToken k.rest.head? = true
      · cases hread : Reference.read? k.first with
        | none =>
          apply hkeep
          simp [Candidate.pieces, hsecond, hread, hcloses]
        | some r₁ =>
          cases hread' : Reference.read? s with
          | none =>
            apply hkeep
            simp [Candidate.pieces, hsecond, hread, hread', hcloses]
          | some r₂ =>
            obtain ⟨s', t', r₁', r₂', hrange, hs', ht'⟩ := hf.range hread hread'
            have hvalid := splitReference?_of_read? ht'
            refine ⟨⟨s', some t', k.rest⟩, ⟨splitReference?_of_read? hs', ?_, hk.rest, by simp⟩, rfl,
              ?_⟩
            · rintro u ⟨⟩
              exact hvalid
            · simp [Candidate.pieces, Candidate.text, hopens, hcloses, hsecond, hread, hread', hs',
                ht', hrange]
      · refine ⟨⟨first, some s, k.rest⟩, ⟨hfirst, ?_, hk.rest, by simp⟩, rfl, ?_⟩
        · rintro u ⟨⟩
          exact hs
        · simp [Candidate.pieces, hopens, hcloses, hsecond, halone]
  · apply hkeep
    rw [Candidate.pieces, if_neg hopens]

theorem valid_rest (hf : Faithful f) (hk : k.Valid) (h : opensToken before = false) :
    Candidate.Valid { k with rest := join ((scanFrom before false k.rest).map f) } where
  first := hk.first
  second := hk.second
  rest := by
    rw [← (hf.alike k.rest h).head?_eq]
    exact hk.rest
  alone := by
    rintro hsecond x hx
    have hhead := (hf.alike k.rest h).head?_eq
    rw [show join ((scanFrom before false k.rest).map f) = ':' :: x from hx] at hhead
    obtain ⟨r, hr⟩ := List.head?_eq_some_iff.1 hhead
    have hcolon : Candidate.read? (':' :: r) = none := by
      rw [Candidate.read?, Option.map_eq_none_iff]
      exact Alike.splitReference?_eq_none (.stop (by decide) [] r) rfl
    rw [hr, scanFrom_of_none before (by decide) hcolon, hf.join_cons] at hx
    rw [← (List.cons.inj hx).2]
    exact hf.splitReference?_eq_none _ (hk.alone hsecond r hr)

theorem scanFrom_join (hf : Faithful f) (before : Option Char) (q : Bool) (t : Text) :
    scanFrom before q (join ((scanFrom before q t).map f)) = (scanFrom before q t).map f := by
  fun_induction scanFrom before q t with
  | case1 => exact scanFrom.eq_1 _ _
  | case2 before q r ih => rw [hf.join_cons, scanFrom_quote, ih, List.map_cons, hf.plain]
  | case3 before c r hc ih =>
    rw [hf.join_cons, scanFrom_of_quoted before hc, ih, List.map_cons, hf.plain]
  | case4 before q c r hc hq hk ih =>
    obtain rfl := Bool.eq_false_iff.2 hq
    have hnone : splitReference? (c :: r) = none := by
      rwa [Candidate.read?, Option.map_eq_none_iff] at hk
    have hnone' := hf.splitReference?_eq_none before hnone
    rw [scanFrom_of_none before hc hk, hf.join_cons] at hnone'
    rw [hf.join_cons, scanFrom_of_none before hc, ih, List.map_cons, hf.plain]
    rw [Candidate.read?, hnone', Option.map_none]
  | case5 before q c r hc hq k hk _ ih =>
    obtain rfl := Bool.eq_false_iff.2 hq
    have hvalid := Candidate.valid_of_read? hk
    have hlast := hvalid.opensToken_getLast?
    obtain ⟨k', hvalid', hrest, hpieces⟩ := hf.exists_candidate hvalid before
    have halike := hf.alike k.rest hlast
    have hw := hf.valid_rest hvalid' hlast
    rw [hrest] at hw
    generalize hjoinRest : join ((scanFrom k.text.getLast? false k.rest).map f) = w at ih halike hw
    have hsame : Candidate.pieces { k' with rest := w } before = k'.pieces before :=
      Candidate.pieces_congr rfl rfl (by rw [hrest, halike.head?_eq])
    have hjoin : join ((k.pieces before).map f) = k'.text := by
      rw [← hpieces]
      exact k'.flatMap_text_pieces before
    have hread := hw.read?_append
    calc scanFrom before false (join ((k.pieces before ++ scanFrom k.text.getLast? false k.rest).map f))
        = scanFrom before false (k'.text ++ w) := by rw [join_append, hjoin, hjoinRest]
      _ = k'.pieces before ++ scanFrom k'.text.getLast? false w := by
        rw [← hsame]
        exact scanFrom_of_some before hread
      _ = (k.pieces before).map f ++ scanFrom k.text.getLast? false w := by
        rw [hpieces, scanFrom_congr false w (hvalid'.opensToken_getLast?.trans hlast.symm)]
      _ = (k.pieces before ++ scanFrom k.text.getLast? false k.rest).map f := by
        rw [ih, List.map_append]

end Faithful

/-- The second token is the first one moved. -/
inductive Token.MovesTo (rows cols : Int) : Token → Token → Prop
  | cell {r r' : Reference} (h : r.MovesTo rows cols r') : MovesTo rows cols (.cell r) (.cell r')
  | range {r₁ r₂ r₁' r₂' : Reference} (h₁ : r₁.MovesTo rows cols r₁')
      (h₂ : r₂.MovesTo rows cols r₂') : MovesTo rows cols (.range r₁ r₂) (.range r₁' r₂')

/-- The second piece is the first one after a move of the formula: a token is moved and written
anew, or kept as it is where no token is it moved. -/
inductive Piece.MovesTo (rows cols : Int) : Piece → Piece → Prop
  | plain (c : Char) : MovesTo rows cols (.plain c) (.plain c)
  | token (s : Text) {k k' : Token} (h : k.MovesTo rows cols k') :
      MovesTo rows cols (.token s k) (.token k'.text k')
  | kept (s : Text) {k : Token} (h : ∀ k', ¬k.MovesTo rows cols k') :
      MovesTo rows cols (.token s k) (.token s k)

theorem Token.shift?_eq_some_iff {rows cols : Int} {k k' : Token} :
    k.shift? rows cols = some k' ↔ k.MovesTo rows cols k' := by
  cases k with
  | cell r =>
    rw [shift?, Option.map_eq_some_iff]
    constructor
    · rintro ⟨r', hr', rfl⟩
      exact .cell (Reference.shift?_eq_some_iff.1 hr')
    · rintro ⟨hr⟩
      exact ⟨_, Reference.shift?_eq_some_iff.2 hr, rfl⟩
  | range r₁ r₂ =>
    simp only [shift?, Option.bind_eq_bind, Option.bind_eq_some_iff, Option.pure_def,
      Option.some.injEq, Reference.shift?_eq_some_iff]
    constructor
    · rintro ⟨r₁', h₁, r₂', h₂, rfl⟩
      exact .range h₁ h₂
    · rintro ⟨⟩
      exact ⟨_, ‹_›, _, ‹_›, rfl⟩

theorem Token.MovesTo.of_add {rows cols rows' cols' : Int} {k k' k'' : Token}
    (h : k.MovesTo rows cols k') (h' : k.MovesTo (rows + rows') (cols + cols') k'') :
    k'.MovesTo rows' cols' k'' := by
  cases h with
  | cell h =>
    cases h' with
    | cell h' => exact .cell (h.of_add h')
  | range h₁ h₂ =>
    cases h' with
    | range h₁' h₂' => exact .range (h₁.of_add h₁') (h₂.of_add h₂')

/-- A piece after a move of the formula. -/
def Piece.shift (rows cols : Int) : Piece → Piece
  | .plain c => .plain c
  | .token s k =>
    match k.shift? rows cols with
    | some k' => .token k'.text k'
    | none => .token s k

variable {rows cols rows' cols' : Int}

theorem Piece.movesTo_shift (rows cols : Int) (p : Piece) :
    p.MovesTo rows cols (p.shift rows cols) := by
  cases p with
  | plain c => exact .plain c
  | token s k =>
    cases hk : k.shift? rows cols with
    | some k' =>
      simp only [shift, hk]
      exact .token s (Token.shift?_eq_some_iff.1 hk)
    | none =>
      simp only [shift, hk]
      apply Piece.MovesTo.kept
      intro k' hk'
      rw [Token.shift?_eq_some_iff.2 hk'] at hk
      cases hk

theorem faithful_shift (rows cols : Int) : Faithful (Piece.shift rows cols) where
  plain _ := rfl
  cell := by
    intro s r hs
    cases hr : r.shift? rows cols with
    | none => exact ⟨s, r, by simp [Piece.shift, Token.shift?, hr], hs⟩
    | some r' => exact ⟨r'.text, r', by simp [Piece.shift, Token.shift?, hr, Token.text],
        Reference.read?_text r'⟩
  range := by
    intro s t r₁ r₂ hs ht
    cases h₁ : r₁.shift? rows cols with
    | none => exact ⟨s, t, r₁, r₂, by simp [Piece.shift, Token.shift?, h₁], hs, ht⟩
    | some r₁' =>
      cases h₂ : r₂.shift? rows cols with
      | none => exact ⟨s, t, r₁, r₂, by simp [Piece.shift, Token.shift?, h₁, h₂], hs, ht⟩
      | some r₂' =>
        exact ⟨r₁'.text, r₂'.text, r₁', r₂', by simp [Piece.shift, Token.shift?, h₁, h₂, Token.text],
          Reference.read?_text r₁', Reference.read?_text r₂'⟩

theorem shift_eq_join (t : Text) (h : ¬(rows = 0 ∧ cols = 0)) :
    shift t rows cols = join ((scan t).map (Piece.shift rows cols)) := by
  rw [shift, if_neg h, rewrite, join, List.flatMap_map]
  congr 1
  funext p
  cases p with
  | plain c => rfl
  | token s k => cases hk : k.shift? rows cols <;> simp [Piece.shift, hk, Piece.text]

theorem scan_shift (t : Text) (h : ¬(rows = 0 ∧ cols = 0)) :
    scan (shift t rows cols) = (scan t).map (Piece.shift rows cols) := by
  rw [shift_eq_join t h]
  exact (faithful_shift rows cols).scanFrom_join none false t

/-- A piece that a part of a move and the whole of it leave on the grid can be moved in two parts. -/
theorem Piece.shift_shift {p : Piece} (h : ∀ s k, p = .token s k →
    (∃ k', k.MovesTo rows cols k') ∧ ∃ k', k.MovesTo (rows + rows') (cols + cols') k') :
    (p.shift rows cols).shift rows' cols' = p.shift (rows + rows') (cols + cols') := by
  cases p with
  | plain c => rfl
  | token s k =>
    obtain ⟨⟨k', hk'⟩, k'', hk''⟩ := h s k rfl
    have hrest := Token.shift?_eq_some_iff.2 (hk'.of_add hk'')
    rw [← Token.shift?_eq_some_iff] at hk' hk''
    simp only [shift, hk', hrest, hk'']

/-- A move keeps the pieces of a formula: characters outside tokens stay, and each token becomes the
moved token, or stays where that is off the grid. So two moves make one, as long as no token is held
back by the first of them or by both together. -/
theorem forall₂_movesTo_scan_shift (t : Text) (rows cols : Int) :
    (¬(rows = 0 ∧ cols = 0) →
      List.Forall₂ (Piece.MovesTo rows cols) (scan t) (scan (shift t rows cols))) ∧
    ∀ rows' cols', ¬(rows + rows' = 0 ∧ cols + cols' = 0) →
      (∀ k ∈ tokens t, (∃ k', k.MovesTo rows cols k') ∧
        ∃ k', k.MovesTo (rows + rows') (cols + cols') k') →
      shift (shift t rows cols) rows' cols' = shift t (rows + rows') (cols + cols') := by
  constructor
  · intro h
    rw [scan_shift t h, List.forall₂_map_right_iff, List.forall₂_same]
    exact fun p _ => p.movesTo_shift rows cols
  · intro rows' cols' hsum hstays
    by_cases hfirst : rows = 0 ∧ cols = 0
    · obtain ⟨rfl, rfl⟩ := hfirst
      rw [shift_zero, Int.zero_add, Int.zero_add]
    by_cases hsecond : rows' = 0 ∧ cols' = 0
    · obtain ⟨rfl, rfl⟩ := hsecond
      rw [shift_zero, Int.add_zero, Int.add_zero]
    rw [shift_eq_join _ hsecond, scan_shift t hfirst, shift_eq_join t hsum, List.map_map]
    congr 1
    apply List.map_congr_left
    intro p hp
    apply Piece.shift_shift
    rintro s k rfl
    exact hstays k (mem_tokens.2 ⟨s, hp⟩)

/-- A range with one anchored row is moved down and to the right, and then up again. -/
theorem forall₂_movesTo_scan_shift_range :
    List.Forall₂ (Piece.MovesTo 1 25) (scan "=SUM(A01:B$2)&\"A1\"".toList)
        (scan "=SUM(Z2:AA$2)&\"A1\"".toList) ∧
      shift "=SUM(Z2:AA$2)&\"A1\"".toList (-1) 0 = shift "=SUM(A01:B$2)&\"A1\"".toList 0 25 := by
  have hshift : shift "=SUM(A01:B$2)&\"A1\"".toList 1 25 = "=SUM(Z2:AA$2)&\"A1\"".toList := by
    decide +kernel
  have htokens : tokens "=SUM(A01:B$2)&\"A1\"".toList =
      [.range ⟨⟨0, 0⟩, false, false⟩ ⟨⟨1, 1⟩, true, false⟩] := by decide +kernel
  obtain ⟨hpieces, hcompose⟩ := forall₂_movesTo_scan_shift "=SUM(A01:B$2)&\"A1\"".toList 1 25
  rw [hshift] at hpieces hcompose
  refine ⟨hpieces (by decide), hcompose (-1) 0 (by decide) ?_⟩
  simp only [htokens, List.mem_singleton, forall_eq, ← Token.shift?_eq_some_iff,
    ← Option.isSome_iff_exists]
  decide

end Spreadsheet.Formula
