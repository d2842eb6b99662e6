import Spreadsheet.Proofs.Expression.Contract
import Spreadsheet.Proofs.Formula.Boundary
import Spreadsheet.Proofs.Formula.Mark

/-!
Whether a text with numbers in the places of its references is an expression. The number may be
negative, or a negative zero with its sign and no parentheses; yet as long as no operand ends right
before a reference and no point follows one, the numbers are operands of their own, whatever they
are. So the answer is the same for all numbers.
-/
namespace Spreadsheet.Formula

open Expression (Cuts Derives EndsOpen IsPlainNumeral IsSignedNumber IsSigned OpenAfter Spells)

variable {a b : Cell → Float} {x : Float} {ps qs : List Piece} {w s t after : Text}

section Boundaries

/-- Each token ends with a digit, and what follows lets it end there. -/
def EndsTokens (ps : List Piece) (after : Text) : Prop :=
  ∀ xs s k ys, ps = xs ++ .token s k :: ys →
    (∃ c ∈ s.getLast?, c.isDigit = true) ∧ closesToken (join ys ++ after).head? = true

theorem Delimited.endsTokens (h : Delimited ps) : EndsTokens ps [] := by
  intro xs s k ys hps
  induction h generalizing xs with
  | nil => cases xs <;> cases hps
  | plain _ ih =>
    cases xs with
    | nil => cases hps
    | cons p xs => exact ih xs (List.cons.inj hps).2
  | token hread hcloses _ ih =>
    cases xs with
    | nil =>
      obtain ⟨hsame, rfl⟩ := List.cons.inj hps
      obtain ⟨rfl, -⟩ := Piece.token.inj hsame
      exact ⟨hread.getLast?, by rwa [List.append_nil]⟩
    | cons p xs => exact ih xs (List.cons.inj hps).2

/-- No operand ends right before a reference, and no point follows one. -/
def Separate (t : Text) : Prop :=
  ∀ ps s k qs, scan t = ps ++ .token s k :: qs →
    EndsOpen (join ps) ∧ (join qs).head? ≠ some '.'

end Boundaries

section Writing

/-- What a query ends with where the cells hold numbers. -/
def outcomeOf (a : Cell → Float) (q : Query Text) : Except FormulaError Text :=
  (q.run (fun c => .number (a c)) (fun c s => (.number (a c), s)) ()).1

/-- The text with numbers in the places of its references. -/
def substituted (a : Cell → Float) (t : Text) : Except FormulaError Text :=
  outcomeOf a (substituteReferences t)

/-- The text of a cell that holds a number. -/
def cellText (a : Cell → Float) (c : Cell) : Text := literal (.number (a c))

theorem outcomeOf_append (a : Cell → Float) (w : Text) (q : Query Text) :
    outcomeOf a (q >>= fun u => .done (w ++ u)) = (outcomeOf a q).map (w ++ ·) := by
  unfold outcomeOf
  change ((q.bind _).run _ _ ()).1 = _
  induction q with
  | done a => rfl
  | fail e => rfl
  | computed c next ih => exact ih _
  | stored c next ih => exact ih _

theorem map_append_eq_ok_iff {ε : Type} {r : Except ε Text} :
    r.map (w ++ ·) = .ok s ↔ ∃ u, r = .ok u ∧ s = w ++ u := by
  cases r <;> simp [Except.map, eq_comm]

/-- Ranges are refused, and all other tokens are replaced by the numbers of their cells. -/
theorem outcomeOf_substitutePieces (a : Cell → Float) (ps : List Piece) :
    outcomeOf a (substitutePieces ps) = .ok s ↔
      NoRange ps ∧ s = filled (cellText a) ps (cells ps) := by
  induction ps generalizing s with
  | nil =>
    change Except.ok [] = Except.ok s ↔ _
    rw [Except.ok.injEq, eq_comm]
    exact ⟨fun h => ⟨fun _ _ _ => List.not_mem_nil, h⟩, And.right⟩
  | cons p ps ih =>
    have hrest (w : Text) : outcomeOf a (substitutePieces ps >>= fun u => .done (w ++ u)) = .ok s ↔
        NoRange ps ∧ s = w ++ filled (cellText a) ps (cells ps) := by
      rw [outcomeOf_append, map_append_eq_ok_iff]
      simp only [ih, and_assoc, exists_and_left, exists_eq_left]
    rw [noRange_cons]
    cases p with
    | plain c => exact (hrest [c]).trans (by simp [filled, cells])
    | token t k =>
      cases k with
      | cell r => exact (hrest (cellText a r.cell)).trans (by simp [filled, cells])
      | range r r' =>
        simp [substitutePieces, Piece.substitute, outcomeOf, Query.run, bind, Query.bind]

end Writing

section Numbers

theorem isSigned_signedTokens (negative : Bool) (y : Float) :
    IsSigned (signedTokens negative y) := by
  cases negative with
  | false => exact .plain y
  | true => exact .minus y

/-- The text of a number has the tokens of a signed number, and no word goes on with it. -/
theorem exists_isSignedNumber (hx : x.isFinite = true) : ∃ p, IsSignedNumber p ∧
    Spells (numberLiteral x) p ∧
      ∀ c ∈ (numberLiteral x).getLast?, c.isDigit = true ∨ c = '.' ∨ c = ')' := by
  obtain ⟨negative, w, y, hw, hy, -, hliteral | hliteral⟩ := exists_numberLiteral hx
  all_goals rw [hliteral]
  · have hspells := spells_signed (r := []) negative hw hy nofun .nil
    rw [List.append_nil, List.append_nil] at hspells
    refine ⟨_, .bare (isSigned_signedTokens negative y), hspells, ?_⟩
    intro c hc
    rw [getLast?_append_right hw.ne_nil] at hc
    rcases hw.mem (List.mem_of_getLast? hc) with hdigit | hpoint
    · exact .inl hdigit
    · exact .inr (.inl hpoint)
  · have hspells := spells_enclosed (r := []) negative hw hy .nil
    refine ⟨_, .parens (isSigned_signedTokens negative y), by simpa using hspells, ?_⟩
    intro c hc
    rw [← List.cons_append, List.getLast?_concat] at hc
    exact .inr (.inr (Option.some.inj hc).symm)

theorem standsIn_cellText (a : Cell → Float) (c : Cell) : ∃ k ts, StandsIn (cellText a c) k ts :=
  ⟨_, standsIn_literal _⟩

theorem cellText_ne_nil (a : Cell → Float) (c : Cell) : cellText a c ≠ [] := by
  obtain ⟨k, ts, hts⟩ := standsIn_cellText a c
  obtain ⟨d, t, hcons, -⟩ := hts.exists_cons
  rw [hcons]
  exact List.cons_ne_nil d t

theorem head?_cellText (a : Cell → Float) (c : Cell) :
    ∀ d ∈ (cellText a c).head?, d ≠ '=' ∧ d ≠ '>' := by
  obtain ⟨k, ts, hts⟩ := standsIn_cellText a c
  obtain ⟨d, t, hcons, hd⟩ := hts.exists_cons
  intro d' hd'
  rw [hcons] at hd'
  obtain rfl := Option.some.inj hd'
  exact hd

theorem getLast?_cellText (a : Cell → Float) (c : Cell) :
    ∀ d ∈ (cellText a c).getLast?, d.isDigit = true ∨ d = '.' ∨ d = ')' := by
  obtain ⟨p, -, -, hlast⟩ := exists_isSignedNumber (isFinite_getD_number? (.number (a c)))
  exact hlast

theorem isSignedNumber_phrase (a : Cell → Float) (c : Cell) :
    IsSignedNumber (Mark.phrase (cellText a) (.value c)) := by
  obtain ⟨p, hp, hspells, -⟩ := exists_isSignedNumber (isFinite_getD_number? (.number (a c)))
  have hphrase : Mark.phrase (cellText a) (.value c) = p :=
    congrArg Expression.Tokens.tokens (Expression.ofText_eq_iff.2 hspells)
  rwa [hphrase]

theorem spells_cellText_iff (a : Cell → Float) (c : Cell) {ts : List Expression.Token} :
    Spells (cellText a c) ts ↔ ts = Mark.phrase (cellText a) (.value c) := by
  obtain ⟨p, -, hspells, -⟩ := exists_isSignedNumber (isFinite_getD_number? (.number (a c)))
  have htokens : Expression.Tokens.ofText (cellText a c) = ⟨p, none⟩ :=
    Expression.ofText_eq_iff.2 hspells
  rw [← Expression.ofText_eq_iff, Mark.phrase, htokens, Expression.Tokens.mk.injEq, eq_comm]
  exact and_iff_left rfl

end Numbers

section Marks

variable {us : List (Mark Cell)} {front ts : List Expression.Token} {p : Text}

/-- The text `p` lies before the pieces; no operand ends before a reference among them, no point
follows one, and each is closed. -/
structure Parted (p : Text) (ps : List Piece) : Prop where
  separate : ∀ xs s k ys, ps = xs ++ .token s k :: ys →
    EndsOpen (p ++ join xs) ∧ (join ys).head? ≠ some '.'
  ends : EndsTokens ps []

theorem Parted.plain {c : Char} (h : Parted p (.plain c :: ps)) : Parted (p ++ [c]) ps where
  separate xs s k ys hps := by
    have := h.separate (.plain c :: xs) s k ys (by rw [hps]; rfl)
    simpa [join, Piece.text] using this
  ends xs s k ys hps := h.ends (.plain c :: xs) s k ys (by rw [hps]; rfl)

theorem Parted.run (h : Parted p (Piece.ofText w ++ ps)) : Parted (p ++ w) ps := by
  induction w generalizing p with
  | nil => rwa [List.append_nil]
  | cons c w ih =>
    have hrest := ih h.plain
    rwa [List.append_assoc] at hrest

theorem Parted.token {k : Token} (h : Parted p (.token s k :: ps)) : Parted (p ++ s) ps where
  separate xs s' k' ys hps := by
    have := h.separate (.token s k :: xs) s' k' ys (by rw [hps]; rfl)
    simpa [join, Piece.text] using this
  ends xs s' k' ys hps := h.ends (.token s k :: xs) s' k' ys (by rw [hps]; rfl)

theorem Parted.endsOpen {k : Token} (h : Parted p (.token s k :: ps)) : EndsOpen p := by
  obtain ⟨hopen, -⟩ := h.separate [] s k ps rfl
  rwa [join, List.flatMap_nil, List.append_nil] at hopen

def EndsInDigit (p : Text) : Prop := ∃ c ∈ p.getLast?, c.isDigit = true

theorem EndsInDigit.append (h : EndsInDigit s) (p : Text) : EndsInDigit (p ++ s) := by
  obtain ⟨c, hc, hdigit⟩ := h
  refine ⟨c, ?_, hdigit⟩
  rw [Option.mem_def] at hc ⊢
  rw [List.getLast?_append, hc, Option.some_or]

theorem EndsInDigit.exists_not_isBlank (hp : EndsInDigit p) (h : EndsOpen (p ++ w)) :
    ∃ c ∈ w, Text.isBlank c = false := by
  by_contra hblank
  push Not at hblank
  obtain ⟨c, hc, hdigit⟩ := hp
  obtain ⟨x, rfl⟩ := List.getLast?_eq_some_iff.1 hc
  have hbs : ∀ b ∈ w, Text.isBlank b = true := fun b hb => Bool.eq_true_of_not_eq_false (hblank b hb)
  have hword := Expression.isBlank_of_isWord (Expression.isWord_of_isDigit hdigit)
  obtain ⟨⟨hpart, -⟩, -⟩ := h x c w (by simp) hbs hword
  rw [Expression.isNamePart_of_isDigit hdigit] at hpart
  cases hpart

theorem head?_filled {k : Token} {text : Cell → Text} {vs : List Cell}
    (h : Parted p (.token s k :: ps)) :
    ∀ c ∈ (filled text ps vs).head?, Expression.Token.isNamePart c = false ∧ c ≠ '.' := by
  obtain ⟨hlast, hcloses⟩ := h.ends [] s k ps rfl
  obtain ⟨-, hpoint⟩ := h.separate [] s k ps rfl
  rw [List.append_nil] at hcloses
  cases ps with
  | nil => exact fun c hc => nomatch hc
  | cons q ps =>
    cases q with
    | plain d =>
      intro c hc
      obtain rfl := Option.some.inj hc
      have hclosesChar : closesToken (some d) = true := hcloses
      simp only [closesToken, isNameChar, Option.all_some, Bool.not_eq_true', Bool.or_eq_false_iff]
        at hclosesChar
      refine ⟨?_, fun hdot => hpoint (congrArg some hdot)⟩
      simp [Expression.Token.isNamePart, hclosesChar]
    | token s' k' =>
      obtain ⟨hopen, -⟩ := h.token.separate [] s' k' ps rfl
      have hdigit : EndsInDigit (p ++ s) := EndsInDigit.append hlast p
      obtain ⟨c, hc, -⟩ := hdigit.exists_not_isBlank hopen
      cases hc

/-- The tokens of the text with the numbers are those of its marks. -/
theorem exists_marked_of_spells (a : Cell → Float) (hcut : CutAtCells ps) (hps : Parted p ps)
    (hts : Spells (filled (cellText a) ps (cells ps)) ts) :
    ∃ us, Marked ps (cells ps) us ∧ ts = us.flatMap (Mark.phrase (cellText a)) := by
  induction hcut generalizing p ts with
  | run w =>
    rw [filled_ofText] at hts
    rw [cells_ofText]
    exact ⟨ts.map .token, .run hts, (flatMap_phrase_token ts).symm⟩
  | @cell w s r ps _ ih =>
    have hcells : cells (Piece.ofText w ++ .token s (.cell r) :: ps) = r.cell :: cells ps :=
      cells_append w (.token s (.cell r) :: ps)
    rw [hcells, filled_append, filled] at hts
    have hopen : EndsOpen w := hps.run.endsOpen.suffix (List.suffix_append p w)
    have hleft : Cuts w (cellText a r.cell ++ filled (cellText a) ps (cells ps)) := by
      apply hopen.cuts
      rw [List.head?_append_of_ne_nil _ (cellText_ne_nil a r.cell)]
      exact head?_cellText a r.cell
    have hright : Cuts (cellText a r.cell) (filled (cellText a) ps (cells ps)) :=
      Expression.cuts_of_operand (getLast?_cellText a r.cell) (head?_filled hps.run)
    obtain ⟨ks, rest, rfl, hks, hrest⟩ := (Expression.spells_append_iff hleft).1 hts
    obtain ⟨js, ls, rfl, hjs, hls⟩ := (Expression.spells_append_iff hright).1 hrest
    obtain rfl := (spells_cellText_iff a r.cell).1 hjs
    obtain ⟨us, hus, rfl⟩ := ih hps.run.token hls
    rw [hcells]
    refine ⟨_, .cell hks hus, ?_⟩
    rw [List.flatMap_append, flatMap_phrase_token, List.flatMap_cons]

/-- An operand may follow the tokens and those of a text with an open end. -/
def Follows (p : Text) (front : List Expression.Token) : Prop :=
  ∀ w ts, Spells w ts → EndsOpen (p ++ w) → OpenAfter (front ++ ts)

theorem follows_nil : Follows [] [] := fun _ _ hw hopen => hopen.openAfter hw

theorem follows_of_endsInDigit (hp : EndsInDigit p) (front : List Expression.Token) :
    Follows p front := by
  intro w ts hw hopen
  obtain ⟨c, hc, hblank⟩ := hp.exists_not_isBlank hopen
  cases ts with
  | nil =>
    rw [Expression.isBlank_of_spells_nil hw c hc] at hblank
    cases hblank
  | cons k ts =>
    have hts := (hopen.suffix (List.suffix_append p w)).openAfter hw
    intro j hj
    apply hts
    rw [Option.mem_def] at hj ⊢
    rw [List.getLast?_append] at hj
    rw [List.getLast?_cons] at hj ⊢
    exact hj

/-- Where signed numbers form an expression, so do any numbers in their places. -/
theorem exists_derives_atoms {vs : List Cell} {n : Nat} {e : Expression} (hus : Marked ps vs us)
    (hps : Parted p ps) (hfront : Follows p front)
    (h : Derives n (.chain .comparison) (front ++ us.flatMap (Mark.phrase (cellText a))) e) :
    ∃ e, Derives n (.chain .comparison) (front ++ us.map Mark.atom) e := by
  induction hus generalizing p front e with
  | run _ =>
    rw [flatMap_phrase_token] at h
    rw [map_atom_token]
    exact ⟨e, h⟩
  | @cell w s r ts ps c vs us hts _ ih =>
    rw [List.flatMap_append, flatMap_phrase_token, List.flatMap_cons, ← List.append_assoc] at h
    obtain ⟨e', h'⟩ := h.contract 0 (isSignedNumber_phrase a c)
      (hfront w ts hts hps.run.endsOpen)
    have hdigit : EndsInDigit (p ++ w ++ s) :=
      EndsInDigit.append (hps.run.ends [] s _ ps rfl).1 (p ++ w)
    have hfollows := follows_of_endsInDigit hdigit (front ++ ts ++ [.number 0])
    obtain ⟨e'', h''⟩ := ih hps.run.token hfollows (by simpa using h')
    refine ⟨e'', ?_⟩
    rw [List.map_append, map_atom_token, List.map_cons, Mark.atom]
    simpa using h''

end Marks

/-- The text with numbers in the places of its references is an expression, with any number of levels
open at once. -/
def WellFormed (a : Cell → Float) (t : Text) : Prop :=
  ∃ s, substituted a t = .ok s ∧
    ∃ n ts e, Spells s ts ∧ Derives n (.chain .comparison) ts e

theorem parted_scan (h : Separate t) : Parted [] (scan t) where
  separate := h
  ends := (delimited_scanFrom none false t).endsTokens

/-- The numbers do not count for whether a text with them is an expression. -/
theorem wellFormed_iff (a : Cell → Float) (h : Separate t) :
    WellFormed a t ↔ NoRange (scan t) ∧ ∃ us : List (Mark Cell),
      Marked (scan t) (cells (scan t)) us ∧
        ∃ n e, Derives n (.chain .comparison) (us.map Mark.atom) e := by
  have hsubstituted : ∀ s, substituted a t = .ok s ↔
      NoRange (scan t) ∧ s = filled (cellText a) (scan t) (cells (scan t)) :=
    fun s => outcomeOf_substitutePieces a (scan t)
  have hps : Parted [] (scan t) := parted_scan h
  constructor
  · rintro ⟨s, hs, n, ts, e, hts, hd⟩
    obtain ⟨hrange, rfl⟩ := (hsubstituted s).1 hs
    obtain ⟨us, hus, rfl⟩ := exists_marked_of_spells a hrange.cutAtCells hps hts
    obtain ⟨e', hd'⟩ := exists_derives_atoms hus hps follows_nil hd
    exact ⟨hrange, us, hus, n, e', hd'⟩
  · rintro ⟨hrange, us, hus, n, e, hd⟩
    have hspells := spells_filled hus hd.isChain fun c _ => standsIn_cellText a c
    obtain ⟨e', hd'⟩ := exists_derives_flatMap (g := Mark.phrase (cellText a)) (fun _ => rfl)
      (fun c _ => (isSignedNumber_phrase a c).exists_derives) hd
    exact ⟨_, (hsubstituted _).2 ⟨hrange, rfl⟩, _, _, e', hspells, hd'⟩

/-- Where no operand ends right before a reference and no point follows one, the numbers do not count
for whether the text with them is an expression. So if it is read with some numbers, it is read with
any others, unless it is nested too deeply with them. -/
theorem wellFormed_congr (a b : Cell → Float) (h : Separate t) :
    (WellFormed a t ↔ WellFormed b t) ∧
      ∀ s e, substituted a t = .ok s → Expression.parse s = .ok e →
        ∃ s', substituted b t = .ok s' ∧
          ((∃ e', Expression.parse s' = .ok e') ∨
            Expression.parse s' = .error .nestedTooDeeply) := by
  have hiff : WellFormed a t ↔ WellFormed b t := (wellFormed_iff a h).trans (wellFormed_iff b h).symm
  refine ⟨hiff, fun s e hs he => ?_⟩
  obtain ⟨ts, hts, hd⟩ := Expression.exists_derives_of_parse he
  obtain ⟨s', hs', n, ts', e', hts', hd'⟩ := hiff.1 ⟨s, hs, _, ts, e, hts, hd⟩
  refine ⟨s', hs', ?_⟩
  rcases Expression.outcome_parse hts' hd' with hok | hdeep
  · exact .inl ⟨e', hok⟩
  · exact .inr hdeep.2

/-- A negative zero is the right operand of a power, and a negative number that of a product. -/
theorem wellFormed_congr_signedPower :
    Separate "2^A1-(B1*3)".toList ∧ ∀ a, WellFormed a "2^A1-(B1*3)".toList := by
  have hscan : scan "2^A1-(B1*3)".toList =
      [.plain '2', .plain '^', .token ['A', '1'] (.cell (.relative ⟨0, 0⟩)), .plain '-', .plain '(',
        .token ['B', '1'] (.cell (.relative ⟨0, 1⟩)), .plain '*', .plain '3', .plain ')'] := by
    decide +kernel
  have hseparate : Separate "2^A1-(B1*3)".toList := by
    have hpower : EndsOpen (['2'] ++ ['^']) :=
      Expression.endsOpen_concat rfl (by decide) (by simp [Expression.IsSign])
    have hparens : EndsOpen ("2^A1-".toList ++ ['(']) :=
      Expression.endsOpen_concat rfl (by decide) (by simp [Expression.IsSign])
    intro ps s k qs h
    rw [hscan] at h
    simp only [List.cons_eq_append_iff, List.cons.injEq, reduceCtorEq, false_and, and_false,
      false_or] at h
    obtain ⟨_, rfl, _, rfl, ⟨rfl, -, rfl⟩ | ⟨_, rfl, _, rfl, _, rfl, ⟨rfl, -, rfl⟩ | hrest⟩⟩ := h
    · exact ⟨hpower, by decide⟩
    · exact ⟨hparens, by decide⟩
    · obtain ⟨_, -, _, -, _, -, _, -, hnil⟩ := hrest
      simp at hnil
  refine ⟨hseparate, fun a => ?_⟩
  have hfive : WellFormed (fun _ => 5) "2^A1-(B1*3)".toList := by
    have hparse : (substituted (fun _ => 5) "2^A1-(B1*3)".toList).toOption.any
        (fun s => (Expression.parse s).toOption.isSome) = true := by
      decide +kernel
    generalize hr : substituted (fun _ => 5) "2^A1-(B1*3)".toList = r at hparse
    cases r with
    | error e => cases hparse
    | ok s =>
      obtain ⟨ts, e, hts, hd⟩ : ∃ ts e, Spells s ts ∧
          Derives (Expression.maxNesting - 1) (.chain .comparison) ts e := by
        cases he : Expression.parse s with
        | error e => simp [Except.toOption, he] at hparse
        | ok e =>
          obtain ⟨ts, hts, hd⟩ := Expression.exists_derives_of_parse he
          exact ⟨ts, e, hts, hd⟩
      exact ⟨s, hr, _, ts, e, hts, hd⟩
  exact (wellFormed_congr (fun _ => 5) a hseparate).1.1 hfive

end Spreadsheet.Formula
