import Spreadsheet.Proofs.Formula.Boundary
import Spreadsheet.Proofs.Formula.Segment
import Spreadsheet.Proofs.Text.Closed

/-!
Texts cut alike: the same characters, and between them tokens of the same kinds. What a token is does
not show outside it, since it is no part of a name and opens and closes nothing. So the one text calls
a function where the other does, and where neither calls one they are passed over alike.
-/
namespace Spreadsheet.Formula

open Text

variable {c : Char} {q : Bool} {before before' : Option Char} {s t u u' w a b name inner args : Text}
  {k : Token} {ps ps' : List Piece}

/-- The same characters with tokens of the same kinds at the same places, each read off its text and
closed by what follows it. -/
inductive CutAlike : List Piece → List Piece → Prop
  | nil : CutAlike [] []
  | plain {c : Char} {ps ps' : List Piece} (h : CutAlike ps ps') :
      CutAlike (.plain c :: ps) (.plain c :: ps')
  | token {s s' : Text} {k k' : Token} {ps ps' : List Piece} (hkind : k'.isRange = k.isRange)
      (hread : k.ReadFrom s) (hread' : k'.ReadFrom s') (hcloses : closesToken (join ps).head? = true)
      (hcloses' : closesToken (join ps').head? = true) (h : CutAlike ps ps') :
      CutAlike (.token s k :: ps) (.token s' k' :: ps')

/-- The change keeps characters, and makes a token of each token, a range of a range only. -/
structure KeepsKinds (f : Piece → Piece) : Prop where
  plain : ∀ c, f (.plain c) = .plain c
  token : ∀ s k, ∃ s' k', f (.token s k) = .token s' k' ∧ k'.isRange = k.isRange

theorem KeepsKinds.cutAlike {f : Piece → Piece} (hf : KeepsKinds f) (h : Delimited ps)
    (h' : Delimited (ps.map f)) : CutAlike ps (ps.map f) := by
  induction h with
  | nil => exact .nil
  | @plain c ps _ ih =>
    rw [List.map_cons, hf.plain] at h' ⊢
    cases h' with
    | plain h' => exact .plain (ih h')
  | @token s k ps hread hcloses _ ih =>
    obtain ⟨s', k', hfs, hkind⟩ := hf.token s k
    rw [List.map_cons, hfs] at h' ⊢
    cases h' with
    | token hread' hcloses' h' => exact .token hkind hread hread' hcloses hcloses' (ih h')

theorem Delimited.cutAlike (h : Delimited ps) : CutAlike ps ps := by
  induction h with
  | nil => exact .nil
  | plain _ ih => exact .plain ih
  | token hread hcloses _ ih => exact .token rfl hread hread hcloses hcloses ih

namespace CutAlike

theorem symm (h : CutAlike ps ps') : CutAlike ps' ps := by
  induction h with
  | nil => exact .nil
  | plain _ ih => exact .plain ih
  | token hkind hread hread' hcloses hcloses' _ ih =>
    exact .token hkind.symm hread' hread hcloses' hcloses ih

theorem left (h : CutAlike ps ps') : Delimited ps := by
  induction h with
  | nil => exact .nil
  | plain _ ih => exact .plain ih
  | token _ hread _ hcloses _ _ ih => exact .token hread hcloses ih

theorem exists_append (w : Text) (h : CutAlike (Piece.ofText w ++ ps) ps') :
    ∃ qs, ps' = Piece.ofText w ++ qs ∧ CutAlike ps qs := by
  induction w generalizing ps' with
  | nil => exact ⟨ps', rfl, h⟩
  | cons c w ih =>
    cases h with
    | plain h =>
      obtain ⟨qs, rfl, hqs⟩ := ih h
      exact ⟨qs, rfl, hqs⟩

theorem eq_nil_of_join_eq_nil (h : CutAlike ps ps') (hnil : join ps = []) : ps = [] := by
  cases h with
  | nil => rfl
  | plain _ => cases hnil
  | token _ hread _ _ _ _ =>
    obtain ⟨c, r, rfl, -⟩ := hread.exists_cons
    cases hnil

theorem join_eq_nil_iff (h : CutAlike ps ps') : join ps = [] ↔ join ps' = [] := by
  constructor
  · intro hnil
    obtain rfl := h.eq_nil_of_join_eq_nil hnil
    cases h
    rfl
  · intro hnil
    obtain rfl := h.symm.eq_nil_of_join_eq_nil hnil
    cases h
    rfl

section Ends

theorem isBlank_of_isRefChar {c : Char} (h : isRefChar c = true) : isBlank c = false := by
  refine Bool.eq_false_iff.2 fun hblank => ?_
  have hdollar := (isEdge_iff.1 (isEdge_of_isBlank hblank)).2.1
  rw [isRefChar_of_isWord (isWord_of_isBlank hblank) hdollar] at h
  cases h

theorem head? (h : CutAlike ps ps') :
    ∀ c ∈ (join ps').head?, c ∈ (join ps).head? ∨ isRefChar c = true := by
  intro c hc
  cases h with
  | nil => cases hc
  | plain _ => exact .inl hc
  | token _ _ hread' _ _ _ =>
    obtain ⟨d, r, rfl, hd⟩ := hread'.exists_cons
    obtain rfl := Option.some.inj hc
    refine .inr ?_
    rcases hd with rfl | hd
    · rfl
    · simp [isRefChar, hd]

theorem getLast? (h : CutAlike ps ps') :
    ∀ c ∈ (join ps').getLast?, c ∈ (join ps).getLast? ∨ isRefChar c = true := by
  intro c hc
  induction h with
  | nil => cases hc
  | @plain d ps ps' h ih =>
    by_cases hnil : join ps' = []
    · rw [join_plain, hnil] at hc
      rw [join_plain, h.join_eq_nil_iff.2 hnil]
      exact .inl hc
    · rw [join_plain, ← List.singleton_append, getLast?_append_right hnil] at hc
      rw [join_plain, ← List.singleton_append, getLast?_append_right (mt h.join_eq_nil_iff.1 hnil)]
      exact ih hc
  | @token s s' k k' ps ps' _ _ hread' _ _ h ih =>
    by_cases hnil : join ps' = []
    · rw [join_token, hnil, List.append_nil] at hc
      obtain ⟨d, hlast, hdigit⟩ := hread'.getLast?
      obtain rfl := Option.mem_unique hc hlast
      exact .inr (by simp [isRefChar, hdigit])
    · rw [join_token, getLast?_append_right hnil] at hc
      rw [join_token, getLast?_append_right (mt h.join_eq_nil_iff.1 hnil)]
      exact ih hc

/-- What stands at the ends of two such texts is the same, or belongs to a token. -/
theorem trimmed (h : CutAlike ps ps') (ht : Trimmed (join ps)) : Trimmed (join ps') where
  head c hc := (h.head? c hc).elim (ht.head c) isBlank_of_isRefChar
  last c hc := (h.getLast? c hc).elim (ht.last c) isBlank_of_isRefChar

end Ends

section Names

/-- A name up to an opening parenthesis is in both texts. -/
theorem exists_of_join_eq (h : CutAlike ps ps') (hjoin : join ps = w ++ '(' :: t)
    (hw : ∀ c ∈ w, isNameChar c = true) :
    ∃ qs qs', join qs = t ∧ join ps' = w ++ '(' :: join qs' ∧ CutAlike qs qs' := by
  obtain ⟨qs, rfl, hqs⟩ := h.left.exists_of_join_eq hjoin hw
  obtain ⟨qs', rfl, halike⟩ := h.exists_append
  exact ⟨qs, qs', hqs, by simp [join_ofText_append], halike⟩

theorem isNameChar_of_capital_or_digit (h : (c.isUpper || c.isDigit) = true) :
    isNameChar c = true := by
  have halpha : c.isAlpha = (c.isUpper || c.isLower) := rfl
  simp only [isNameChar, Char.isAlphanum, halpha, Bool.or_eq_true] at h ⊢
  tauto

theorem exists_splitName? (h : CutAlike ps ps') (hname : splitName? (join ps) = some (name, inner)) :
    ∃ qs qs', join qs = inner ∧ splitName? (join ps') = some (name, join qs') ∧ CutAlike qs qs' := by
  obtain ⟨hjoin, hall, hhead⟩ := splitName?_eq_some_iff.1 hname
  obtain ⟨qs, qs', hqs, hjoin', halike⟩ :=
    h.exists_of_join_eq hjoin fun c hc => isNameChar_of_capital_or_digit (hall c hc)
  exact ⟨qs, qs', hqs, splitName?_eq_some_iff.2 ⟨hjoin', hall, hhead⟩, halike⟩

theorem exists_splitClosing? (h : CutAlike ps ps') {n : Nesting}
    (hclosing : splitClosing? n (join ps) = some (a, b)) :
    ∃ a' qs qs', join qs = b ∧ splitClosing? n (join ps') = some (a', join qs') ∧
      CutAlike qs qs' := by
  induction h generalizing n a with
  | nil => cases hclosing
  | @plain c ps ps' h ih =>
    rw [join_plain, splitClosing?] at hclosing
    rw [join_plain, splitClosing?]
    split at hclosing
    · rename_i hc
      rw [if_pos hc]
      split at hclosing
      · cases hclosing
      · rename_i hdepth
        obtain ⟨rfl, rfl⟩ := Prod.mk.inj (Option.some.inj hclosing)
        exact ⟨[], ps, ps', rfl, if_neg hdepth, h⟩
    · rename_i hc
      obtain ⟨p, hp, hpair⟩ := Option.map_eq_some_iff.1 hclosing
      obtain ⟨-, rfl⟩ := Prod.mk.inj hpair
      obtain ⟨a', qs, qs', hqs, hclosing', halike⟩ := ih hp
      exact ⟨c :: a', qs, qs', hqs, by rw [if_neg hc, hclosing']; rfl, halike⟩
  | @token s s' k k' ps ps' _ hread hread' _ _ _ ih =>
    have hpasses {s : Text} {k : Token} (hread : k.ReadFrom s) (r : Text) :
        splitClosing? n (s ++ r) = (splitClosing? n r).map fun p => (s ++ p.1, p.2) := by
      have hclose : ')' ∉ s := hread.not_mem rfl (by decide)
      rw [splitClosing?_append_left, nestingAfter_of_not_mem (hread.not_mem rfl (by decide))
        (hread.not_mem rfl (by decide)) hclose]
      rintro x y rfl
      simp at hclose
    rw [join_token, hpasses hread] at hclosing
    rw [join_token]
    obtain ⟨p, hp, hpair⟩ := Option.map_eq_some_iff.1 hclosing
    obtain ⟨-, rfl⟩ := Prod.mk.inj hpair
    obtain ⟨a', qs, qs', hqs, hclosing', halike⟩ := ih hp
    exact ⟨s' ++ a', qs, qs', hqs, by rw [hpasses hread', hclosing']; rfl, halike⟩

theorem isNameChar_of_isCallName (h : isCallName name = true) : ∀ c ∈ name, isNameChar c = true := by
  cases name with
  | nil => exact nofun
  | cons d name =>
    simp only [isCallName, Bool.and_eq_true, List.all_eq_true] at h
    refine List.forall_mem_cons.2 ⟨?_, h.2⟩
    simp [isNameChar, Char.isAlphanum, h.1]

theorem exists_wholeCall? (h : CutAlike ps ps') (hcall : wholeCall? (join ps) = some (name, args)) :
    ∃ args', wholeCall? (join ps') = some (name, args') := by
  obtain ⟨⟨name', r⟩, hcut, hcall⟩ := Option.bind_eq_some_iff.1 hcall
  obtain ⟨hjoin, hnot⟩ := cutAt?_eq_some_iff.1 hcut
  dsimp only at hcall
  split at hcall
  · rename_i hname
    split at hcall
    · rename_i args hclosing
      obtain ⟨rfl, rfl⟩ := Prod.mk.inj (Option.some.inj hcall)
      obtain ⟨qs, qs', rfl, hjoin', halike⟩ :=
        h.exists_of_join_eq hjoin (isNameChar_of_isCallName hname)
      obtain ⟨args', zs, zs', hzs, hclosing', hz⟩ := halike.exists_splitClosing? hclosing
      obtain rfl := hz.eq_nil_of_join_eq_nil hzs
      cases hz
      refine ⟨args', ?_⟩
      have hcut' : cutAt? '(' (join ps') = some (name', join qs') :=
        cutAt?_eq_some_iff.2 ⟨hjoin', hnot⟩
      have hcall' : splitCall? (join qs') = some (args', []) := hclosing'
      simp [wholeCall?, hcut', hname, hcall']
    · cases hcall
  · cases hcall

end Names

end CutAlike

section Segments

variable {known : Text → Bool} {o o' : Options} {eval eval' : Text → Query Value}

theorem segmentsFrom_token (hread : k.ReadFrom s) (hcloses : closesToken w.head? = true) :
    segmentsFrom known before q (s ++ w) =
      s.map .plain ++ segmentsFrom known s.getLast? q w := by
  obtain ⟨d, hlast, -⟩ := hread.getLast?
  have hquote : '"' ∉ s := hread.not_mem rfl (by decide)
  have hparen : '(' ∉ s := hread.not_mem rfl (by decide)
  rw [segmentsFrom_append, quotedAfter_of_not_mem hquote, Option.mem_def.1 hlast, Option.some_or]
  intro u c v hs _ _ name inner hname
  exfalso
  obtain ⟨hsplit, hall, -⟩ := splitName?_eq_some_iff.1 hname
  have hstops {z : Text} (hz : ∀ d ∈ z, d ∈ name) (hw : w = z ++ '(' :: inner) : False := by
    rw [hw] at hcloses
    cases z with
    | nil => cases hcloses
    | cons d z =>
      have hd := CutAlike.isNameChar_of_capital_or_digit (hall d (hz d List.mem_cons_self))
      simp [closesToken, hd] at hcloses
  rcases List.append_eq_append_iff.1 hsplit with ⟨z, hz, hrest⟩ | ⟨z, hz, hrest⟩
  · exact hstops (fun d hd => by rw [hz]; exact List.mem_append_right _ hd) hrest
  · cases z with
    | nil => exact hstops (List.forall_mem_nil _) hrest.symm
    | cons d z =>
      obtain ⟨rfl, -⟩ := List.cons.inj hrest
      exact hparen (by rw [hs, hz]; simp)

/-- Two queries that end at once, each with its text, or both with the same failure. -/
inductive EndAlike (u u' : Text) : Query Text → Query Text → Prop
  | done : EndAlike u u' (.done u) (.done u')
  | fail (e : FormulaError) : EndAlike u u' (.fail e) (.fail e)

theorem EndAlike.prepend {x x' : Query Text} (h : EndAlike u u' x x') (w w' : Text) :
    EndAlike (w ++ u) (w' ++ u') (x >>= fun t => pure (w ++ t)) (x' >>= fun t => pure (w' ++ t)) := by
  cases h with
  | done => exact .done
  | fail e => exact .fail e

/-- A known function is called at the beginning of the text. -/
def Opens (known : Text → Bool) (t : Text) : Prop :=
  ∃ name inner, splitName? t = some (name, inner) ∧ known name = true

theorem CutAlike.opens (h : CutAlike ps ps') (hopens : Opens known (join ps)) :
    Opens known (join ps') := by
  obtain ⟨name, inner, hname, hknown⟩ := hopens
  obtain ⟨qs, qs', -, hname', -⟩ := h.exists_splitName? hname
  exact ⟨name, join qs', hname', hknown⟩

theorem segmentsFrom_of_not_opens
    (h : ¬(q = false ∧ before.any isWord = false ∧ Opens known (c :: t))) :
    segmentsFrom known before q (c :: t) =
      .plain c :: segmentsFrom known (some c) (quotedAfter q [c]) t := by
  refine segmentsFrom_cons fun hq hword name inner hname => ?_
  exact Bool.eq_false_iff.2 fun hknown => h ⟨hq, hword, name, inner, hname, hknown⟩

/-- Texts cut alike, of which the one has no call, are passed over up to the same open call. -/
theorem CutAlike.endAlike_expandSegments (h : CutAlike ps ps')
    (hbefore : before'.any isWord = before.any isWord)
    (hcalls : ∀ name args, .call name args ∉ segmentsFrom known before q (join ps)) :
    EndAlike (join ps) (join ps') (expandSegments o eval (segmentsFrom known before q (join ps)))
      (expandSegments o' eval' (segmentsFrom known before' q (join ps'))) := by
  induction h generalizing before before' q with
  | nil =>
    rw [join, List.flatMap_nil, segmentsFrom, segmentsFrom]
    exact .done
  | @plain c ps ps' h ih =>
    have hplain : CutAlike (.plain c :: ps) (.plain c :: ps') := .plain h
    rw [join_plain, join_plain]
    by_cases hopens : q = false ∧ before.any isWord = false ∧ Opens known (c :: join ps)
    · obtain ⟨rfl, hword, name, inner, hname, hknown⟩ := hopens
      obtain ⟨qs, qs', rfl, hname', hqs⟩ := hplain.exists_splitName? hname
      rw [join_plain] at hname' hcalls
      have hunclosed : splitCall? (join qs) = none := by
        refine Option.eq_none_iff_forall_ne_some.2 fun r hr => ?_
        rw [segmentsFrom_of_known hword hname hknown, hr] at hcalls
        exact hcalls name r.1 List.mem_cons_self
      have hunclosed' : splitCall? (join qs') = none := by
        refine Option.eq_none_iff_forall_ne_some.2 fun r hr => ?_
        obtain ⟨args, zs, zs', -, hclosing, -⟩ := hqs.symm.exists_splitClosing? hr
        have hclosed : splitCall? (join qs) = some (args, join zs') := hclosing
        rw [hunclosed] at hclosed
        cases hclosed
      rw [segmentsFrom_of_known hword hname hknown, hunclosed,
        segmentsFrom_of_known (hbefore.trans hword) hname' hknown, hunclosed']
      exact .fail (.unclosedCall name)
    · have hopens' : ¬(q = false ∧ before'.any isWord = false ∧ Opens known (c :: join ps')) := by
        rintro ⟨hq, hword, hopens'⟩
        exact hopens ⟨hq, hbefore.symm.trans hword, hplain.symm.opens hopens'⟩
      rw [join_plain, segmentsFrom_of_not_opens hopens] at hcalls
      rw [segmentsFrom_of_not_opens hopens, segmentsFrom_of_not_opens hopens']
      have hrest : EndAlike (join ps) (join ps')
          (expandSegments o eval (segmentsFrom known (some c) (quotedAfter q [c]) (join ps)))
          (expandSegments o' eval' (segmentsFrom known (some c) (quotedAfter q [c]) (join ps'))) :=
        ih rfl fun name args hmem => hcalls name args (List.mem_cons_of_mem _ hmem)
      exact hrest.prepend [c] [c]
  | @token s s' k k' ps ps' _ hread hread' hcloses hcloses' _ ih =>
    have hlast {s : Text} {k : Token} (hread : k.ReadFrom s) : s.getLast?.any isWord = true := by
      obtain ⟨d, hd, hdigit⟩ := hread.getLast?
      rw [Option.mem_def.1 hd]
      exact isWord_of_isAlphanum (by simp [Char.isAlphanum, hdigit])
    rw [join_token, segmentsFrom_token hread hcloses] at hcalls
    rw [join_token, join_token, segmentsFrom_token hread hcloses,
      segmentsFrom_token hread' hcloses', expandSegments_map_plain, expandSegments_map_plain]
    refine (ih ((hlast hread').trans (hlast hread).symm) fun name args hmem => ?_).prepend s s'
    exact hcalls name args (List.mem_append_right _ hmem)

end Segments

end Spreadsheet.Formula
