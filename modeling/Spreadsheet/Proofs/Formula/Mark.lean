import Spreadsheet.Proofs.Formula.Literal

/-!
A text in which something stands in the places of the references. The text from one reference to the
next is cut into tokens by itself; so the text is known by its marks, each a token or what stands in a
place. Where what stands in a place is one operand, the text with all of them written out is read as
the marks tell, and forms an expression if the marks with numbers in the places do.
-/
namespace Spreadsheet.Formula

open Expression (Apart Breaks Derives Spells isOperand)

variable {α : Type} {text : α → Text} {ps : List Piece} {vs : List α} {v : α} {w : Text}
  {ts : List Expression.Token}

/-- A token, or what stands in the place of a reference. -/
inductive Mark (α : Type) where
  | token (k : Expression.Token)
  | value (v : α)

namespace Mark

/-- Any number stands for a reference where only the form counts. -/
def atom : Mark α → Expression.Token
  | token k => k
  | value _ => .number 0

/-- The tokens that are left when the text of the value is written out. -/
def phrase (text : α → Text) : Mark α → List Expression.Token
  | token k => [k]
  | value v => (Expression.Tokens.ofText (text v)).tokens

end Mark

variable {us : List (Mark α)}

/-- The marks of the pieces, with values where cell references stand. -/
inductive Marked : List Piece → List α → List (Mark α) → Prop
  | run {w : Text} {ts : List Expression.Token} (h : Spells w ts) :
      Marked (Piece.ofText w) [] (ts.map .token)
  | cell {w s : Text} {r : Reference} {ts : List Expression.Token} {ps : List Piece} {v : α}
      {vs : List α} {us : List (Mark α)} (h : Spells w ts) (rest : Marked ps vs us) :
      Marked (Piece.ofText w ++ .token s (.cell r) :: ps) (v :: vs) (ts.map .token ++ .value v :: us)

/-- The cells that the references name, in order. -/
def cells (ps : List Piece) : List Cell :=
  ps.filterMap fun
    | .token _ (.cell r) => some r.cell
    | _ => none

/-- The text of the pieces with the values written out in the places of the tokens. -/
def filled (text : α → Text) : List Piece → List α → Text
  | .plain c :: ps, vs => c :: filled text ps vs
  | .token _ _ :: ps, v :: vs => text v ++ filled text ps vs
  | _, _ => []

/-- No range stands in the pieces. -/
def NoRange (ps : List Piece) : Prop := ∀ s r r', .token s (.range r r') ∉ ps

section Pieces

theorem cells_append (w : Text) (ps : List Piece) : cells (Piece.ofText w ++ ps) = cells ps := by
  induction w with
  | nil => rfl
  | cons c w ih => exact ih

theorem cells_ofText (w : Text) : cells (Piece.ofText w) = [] := by
  induction w with
  | nil => rfl
  | cons c w ih => exact ih

theorem filled_append (w : Text) (ps : List Piece) (vs : List α) :
    filled text (Piece.ofText w ++ ps) vs = w ++ filled text ps vs := by
  induction w with
  | nil => rfl
  | cons c w ih => exact congrArg (c :: ·) ih

theorem filled_ofText (w : Text) (vs : List α) : filled text (Piece.ofText w) vs = w := by
  induction w with
  | nil => rfl
  | cons c w ih => exact congrArg (c :: ·) ih

theorem noRange_cons {p : Piece} :
    NoRange (p :: ps) ↔ (∀ s r r', p ≠ .token s (.range r r')) ∧ NoRange ps := by
  simp only [NoRange, List.mem_cons, not_or, forall_and, ne_eq, eq_comm]

/-- Pieces without ranges, cut at the cell references. -/
inductive CutAtCells : List Piece → Prop
  | run (w : Text) : CutAtCells (Piece.ofText w)
  | cell (w s : Text) (r : Reference) {ps : List Piece} (rest : CutAtCells ps) :
      CutAtCells (Piece.ofText w ++ .token s (.cell r) :: ps)

theorem NoRange.cutAtCells (h : NoRange ps) : CutAtCells ps := by
  have hbehind : ∀ w, CutAtCells (Piece.ofText w ++ ps) := by
    induction ps with
    | nil =>
      intro w
      rw [List.append_nil]
      exact .run w
    | cons p ps ih =>
      obtain ⟨hp, hps⟩ := noRange_cons.1 h
      intro w
      match p with
      | .plain c =>
        have hnext := ih hps (w ++ [c])
        rwa [Piece.ofText, List.map_append, List.append_assoc] at hnext
      | .token s (.cell r) => exact .cell w s r (ih hps [])
      | .token s (.range r r') => exact absurd rfl (hp s r r')
  exact hbehind []

end Pieces

section Marks

theorem flatMap_phrase_token (ts : List Expression.Token) :
    (ts.map Mark.token).flatMap (Mark.phrase text) = ts := by
  rw [List.flatMap_map]
  exact List.flatMap_singleton' ts

theorem map_atom_token (ts : List Expression.Token) :
    (ts.map Mark.token).map (Mark.atom (α := α)) = ts := by
  rw [List.map_map]
  exact List.map_id ts

theorem Marked.mem (h : Marked ps vs us) (hv : .value v ∈ us) : v ∈ vs := by
  induction h with
  | run _ =>
    obtain ⟨k, -, hk⟩ := List.mem_map.1 hv
    cases hk
  | cell _ _ ih =>
    rcases List.mem_append.1 hv with hv | hv
    · obtain ⟨k, -, hk⟩ := List.mem_map.1 hv
      cases hk
    · rcases List.mem_cons.1 hv with hv | hv
      · cases hv
        exact List.mem_cons_self
      · exact List.mem_cons_of_mem _ (ih hv)

/-- What follows a value does not start with an operand. -/
theorem isOperand_head? (h : ∀ k ∈ (us.map Mark.atom).head?, isOperand k = false) :
    ∀ k ∈ (us.flatMap (Mark.phrase text)).head?, isOperand k = false := by
  cases us with
  | nil => exact fun k hk => nomatch hk
  | cons u us =>
    have hu := h u.atom rfl
    cases u with
    | value v => cases hu
    | token k =>
      intro j hj
      obtain rfl := Option.some.inj hj
      exact hu

theorem StandsIn.phrase {k : Expression.Token} (h : StandsIn (text v) k ts) :
    Mark.phrase text (.value v) = ts := by
  have hspells := h.spells (r := []) (by simp) .nil
  rw [List.append_nil, List.append_nil] at hspells
  exact congrArg Expression.Tokens.tokens (Expression.ofText_eq_iff.2 hspells)

/-- What stands in the places is read as operands, and all else as before. -/
theorem spells_filled (h : Marked ps vs us) (hapart : (us.map Mark.atom).IsChain Apart)
    (hvs : ∀ v ∈ vs, ∃ k ts, StandsIn (text v) k ts) :
    Spells (filled text ps vs) (us.flatMap (Mark.phrase text)) := by
  induction h with
  | run h =>
    rw [filled_ofText, flatMap_phrase_token]
    exact h
  | @cell w s r ts ps v vs us h _ ih =>
    obtain ⟨⟨k, phrase, hstands⟩, hvs⟩ := List.forall_mem_cons.1 hvs
    rw [List.map_append, map_atom_token, List.map_cons] at hapart
    obtain ⟨-, htail, hlast⟩ := List.isChain_append.1 hapart
    obtain ⟨hnext, htail⟩ := List.isChain_cons.1 htail
    have hrest := ih htail hvs
    have hbreaks : ∀ c ∈ (filled text ps vs).head?, Breaks c :=
      hrest.breaks (isOperand_head? fun k hk => (hnext k hk).resolve_left nofun)
    obtain ⟨c, lit, hlit, hc⟩ := hstands.exists_cons
    rw [filled_append, List.flatMap_append, flatMap_phrase_token, List.flatMap_cons,
      hstands.phrase]
    refine h.append (fun k hk => ?_) ?_ (hstands.spells hbreaks hrest)
    · exact (hlast k hk _ rfl).resolve_right nofun
    · intro d hd
      change d ∈ (text v ++ filled text ps vs).head? at hd
      rw [hlit] at hd
      obtain rfl := Option.some.inj hd
      exact hc

/-- Where numbers in the places form an expression, so do signed phrases. -/
theorem exists_derives_flatMap {g : Mark α → List Expression.Token} {n m : Nat} {e : Expression}
    (htoken : ∀ k, g (.token k) = [k])
    (hvalue : ∀ v, .value v ∈ us → ∃ e, Derives m .signed (g (.value v)) e)
    (h : Derives n (.chain .comparison) (us.map Mark.atom) e) :
    ∃ e, Derives (n + m) (.chain .comparison) (us.flatMap g) e := by
  have hstands : ∀ u ∈ us, Expression.StandsFor m (fun _ _ => True) u.atom (g u) := by
    intro u hu
    cases u with
    | token k => exact .inl (htoken k)
    | value v =>
      obtain ⟨e, hd⟩ := hvalue v hu
      exact .inr ⟨0, e, rfl, hd, trivial⟩
  obtain ⟨e, hd, -⟩ := h.replace Expression.congruence_true hstands
  exact ⟨e, hd⟩

end Marks

end Spreadsheet.Formula
