import Spreadsheet.Proofs.Expression.Grammar

/-!
What the parser reads is derived: each reader takes away tokens that form its expression, and levels
are opened as the grammar counts them. What is left may not end where a fault stands behind the
tokens, so that an expression never ends in front of one unnoticed.
-/
namespace Spreadsheet.Expression.Parser

variable {fault : Option ParseError} {bound n m : Nat} {d : Deeper} {k : Token}
  {ts us rest : List Token} {e : Expression} {es : List Expression} {w : Text}

/-- The reader of a category. -/
def readerOf (fault : Option ParseError) (bound : Nat) (d : Deeper) : Category → Reader Expression
  | .chain .comparison => comparison fault bound d
  | .chain .sum => sum fault bound d
  | .chain .product => product fault bound d
  | .power => power fault bound d
  | .signed => signed fault bound d
  | .primary => primary fault bound d

theorem readerOf_chain (c : Chain) : readerOf fault bound d (.chain c) =
    chain fault bound c.operator? (readerOf fault bound d c.operand) := by
  cases c <;> rfl

theorem readerOf_power : readerOf fault bound d .power = power fault bound d := rfl

theorem readerOf_signed : readerOf fault bound d .signed = signed fault bound d := rfl

theorem readerOf_primary : readerOf fault bound d .primary = primary fault bound d := rfl

theorem exists_of_bind_eq_ok {ε α β : Type} {x : Except ε α} {f : α → Except ε β} {b : β}
    (h : x >>= f = .ok b) : ∃ a, x = .ok a ∧ f a = .ok b := by
  cases x with
  | error e => cases h
  | ok a => exact ⟨a, rfl, h⟩

theorem eq_cons_of_next (hk : k ≠ .finish) (h : next ts = k) : ts = k :: ts.tail := by
  cases ts with
  | nil => exact absurd h.symm hk
  | cons k' ts => exact congrArg (· :: ts) h

/-- The tokens do not end where a fault stands behind them. -/
def Open (fault : Option ParseError) (ts : List Token) : Prop := fault ≠ none → ts ≠ []

theorem advance_eq_ok (h : advance fault ts = .ok us) : us = ts.tail ∧ Open fault us := by
  unfold advance at h
  split at h
  · cases h
  · rename_i hopen
    cases h
    refine ⟨rfl, fun hfault hnil => ?_⟩
    obtain ⟨e, he⟩ := Option.ne_none_iff_exists'.1 hfault
    exact hopen e hnil he

theorem eq_cons_of_advance (hk : k ≠ .finish) (hnext : next ts = k)
    (h : advance fault ts = .ok us) : ts = k :: us ∧ Open fault us := by
  obtain ⟨rfl, hopen⟩ := advance_eq_ok h
  exact ⟨eq_cons_of_next hk hnext, hopen⟩

theorem eq_cons_of_expect (hk : k ≠ .finish) (h : expect fault k ts = .ok us) :
    ts = k :: us ∧ Open fault us := by
  unfold expect at h
  split at h
  · rename_i hnext
    exact eq_cons_of_advance hk hnext h
  · cases h

/-- A phrase has been taken from the front of the tokens. -/
def Took (fault : Option ParseError) (n : Nat) (c : Category) (ts : List Token)
    (r : Expression × List Token) : Prop :=
  ∃ used, ts = used ++ r.2 ∧ Derives n c used r.1 ∧ Open fault r.2

theorem Took.imp {c' : Category} {r : Expression × List Token} (h : Took fault n c ts r)
    (himp : ∀ used, Derives n c used r.1 → Derives n c' used r.1) : Took fault n c' ts r := by
  obtain ⟨used, hts, hd, hopen⟩ := h
  exact ⟨used, hts, himp used hd, hopen⟩

/-- What is read on a further level takes one of the levels. -/
def TakesLevel (fault : Option ParseError) (n : Nat) (c : Category) (read : Reader Expression) :
    Prop :=
  ∀ ts r, read ts = .ok r → ∃ m, n = m + 1 ∧ Took fault m c ts r

structure Sound (fault : Option ParseError) (n : Nat) (d : Deeper) : Prop where
  comparison : TakesLevel fault n (.chain .comparison) d.comparison
  power : TakesLevel fault n .power d.power
  signed : TakesLevel fault n .signed d.signed

theorem took_chainFrom {c : Chain} {operand : Reader Expression}
    (hoperand : ∀ ts r, operand ts = .ok r → Took fault n c.operand ts r) {used : List Token}
    {left : Expression} {r : Expression × List Token} (hleft : Derives n (.chain c) used left)
    (hopen : Open fault ts) (h : chainFrom fault c.operator? operand bound left ts = .ok r) :
    Took fault n (.chain c) (used ++ ts) r := by
  induction bound generalizing used left ts with
  | zero =>
    cases h
    exact ⟨used, rfl, hleft, hopen⟩
  | succ bound ih =>
    unfold chainFrom at h
    split at h
    · cases h
      exact ⟨used, rfl, hleft, hopen⟩
    · rename_i op hop
      have hk : next ts ≠ .finish := by
        intro hfinish
        rw [hfinish] at hop
        cases c <;> cases hop
      obtain ⟨us, hus, h⟩ := exists_of_bind_eq_ok h
      obtain ⟨⟨right, vs⟩, hright, hrest⟩ := exists_of_bind_eq_ok h
      obtain ⟨hts, -⟩ := eq_cons_of_advance hk rfl hus
      obtain ⟨part, hpart, hd, hopen⟩ := hoperand us _ hright
      have htook := ih (hleft.step (operator?_eq_some_iff.1 hop) hd) hopen hrest
      rw [hts, hpart]
      simpa using htook

theorem took_chain {c : Chain} {operand : Reader Expression}
    (hoperand : ∀ ts r, operand ts = .ok r → Took fault n c.operand ts r)
    {r : Expression × List Token} (h : chain fault bound c.operator? operand ts = .ok r) :
    Took fault n (.chain c) ts r := by
  obtain ⟨⟨left, us⟩, hleft, hmore⟩ := exists_of_bind_eq_ok h
  obtain ⟨used, hts, hused, hopen⟩ := hoperand ts _ hleft
  rw [hts]
  exact took_chainFrom hoperand hused.single hopen hmore

theorem intercalate_cons (us : List Token) (tss : List (List Token)) :
    [Token.comma].intercalate (us :: tss) = us ++ tss.flatMap (.comma :: ·) := by
  induction tss generalizing us with
  | nil => simp
  | cons vs tss ih => simp [List.intercalate_cons_cons, ih]

/-- Arguments have been taken away, each behind a comma. -/
theorem took_moreArguments {argument : Reader Expression}
    (hargument : TakesLevel fault n (.chain .comparison) argument) (hn : n = m + 1)
    (hopen : Open fault ts) (h : moreArguments fault argument bound ts = .ok (es, rest)) :
    ∃ args : List (List Token × Expression), es = args.map Prod.snd ∧
      ts = (args.map Prod.fst).flatMap (.comma :: ·) ++ rest ∧
      (∀ arg ∈ args, Derives m (.chain .comparison) arg.1 arg.2) ∧ Open fault rest := by
  induction bound generalizing ts es with
  | zero =>
    cases h
    exact ⟨[], rfl, rfl, by simp, hopen⟩
  | succ bound ih =>
    unfold moreArguments at h
    split at h
    · rename_i hcomma
      obtain ⟨us, hus, h⟩ := exists_of_bind_eq_ok h
      obtain ⟨⟨e, vs⟩, he, h⟩ := exists_of_bind_eq_ok h
      obtain ⟨⟨es', ws⟩, hes, h⟩ := exists_of_bind_eq_ok h
      cases h
      obtain ⟨hts, -⟩ := eq_cons_of_advance (by decide) hcomma hus
      obtain ⟨m', hm, used, rfl, hused, hopen⟩ := hargument us _ he
      obtain rfl : m' = m := by omega
      obtain ⟨args, rfl, hvs, hargs, hopen⟩ := ih hopen hes
      refine ⟨(used, e) :: args, rfl, ?_, List.forall_mem_cons.2 ⟨hused, hargs⟩, hopen⟩
      dsimp only at hvs
      rw [hts, hvs]
      simp
    · cases h
      exact ⟨[], rfl, rfl, by simp, hopen⟩

theorem took_arguments {argument : Reader Expression}
    (hargument : TakesLevel fault n (.chain .comparison) argument) (hopen : Open fault ts)
    (h : arguments fault bound argument ts = .ok (es, rest)) :
    ∃ (m : Nat) (args : List (List Token × Expression)), es = args.map Prod.snd ∧
      ts = [Token.comma].intercalate (args.map Prod.fst) ++ rest ∧ (args ≠ [] → n = m + 1) ∧
      (∀ arg ∈ args, Derives m (.chain .comparison) arg.1 arg.2) ∧ Open fault rest := by
  unfold arguments at h
  split at h
  · cases h
    exact ⟨0, [], rfl, rfl, by simp, by simp, hopen⟩
  · obtain ⟨⟨e, us⟩, he, h⟩ := exists_of_bind_eq_ok h
    obtain ⟨⟨es', vs⟩, hes, h⟩ := exists_of_bind_eq_ok h
    cases h
    obtain ⟨m, hm, used, rfl, hused, hopen⟩ := hargument ts _ he
    obtain ⟨args, rfl, hus, hargs, hopen⟩ := took_moreArguments hargument hm hopen hes
    refine ⟨m, (used, e) :: args, rfl, ?_, fun _ => hm,
      List.forall_mem_cons.2 ⟨hused, hargs⟩, hopen⟩
    dsimp only at hus
    rw [List.map_cons, intercalate_cons, List.append_assoc, ← hus]

theorem took_call (hd : Sound fault n d) {r : Expression × List Token}
    (h : call fault bound d w ts = .ok r) :
    ∃ used, ts = used ++ r.2 ∧ Derives n .primary (.identifier w :: used) r.1 ∧ Open fault r.2 := by
  unfold call at h
  split at h
  · cases h
  · rename_i f hf
    obtain ⟨us, hus, h⟩ := exists_of_bind_eq_ok h
    obtain ⟨⟨es, vs⟩, hes, h⟩ := exists_of_bind_eq_ok h
    obtain ⟨ws, hws, h⟩ := exists_of_bind_eq_ok h
    obtain ⟨hts, hopen⟩ := eq_cons_of_expect (by decide) hus
    obtain ⟨m, args, rfl, husArgs, hlevel, hargs, -⟩ := took_arguments hd.comparison hopen hes
    obtain ⟨hvs, hopen⟩ := eq_cons_of_expect (by decide) hws
    split at h
    · rename_i hcount
      cases h
      refine ⟨.leftParen :: ([Token.comma].intercalate (args.map Prod.fst) ++ [.rightParen]),
        ?_, .call (signature_iff.2 ⟨ofName?_eq_some_iff.1 hf, ?_⟩) hlevel hargs, hopen⟩
      · rw [hts, husArgs, hvs]
        simp
      · rwa [List.length_map] at hcount
    · cases h

theorem took_primary (hd : Sound fault n d) {r : Expression × List Token}
    (h : primary fault bound d ts = .ok r) : Took fault n .primary ts r := by
  unfold primary at h
  split at h
  · rename_i x hnext
    obtain ⟨us, hus, h⟩ := exists_of_bind_eq_ok h
    cases h
    obtain ⟨hts, hopen⟩ := eq_cons_of_advance (by simp) hnext hus
    exact ⟨[.number x], hts, .number x, hopen⟩
  · rename_i hnext
    obtain ⟨us, hus, h⟩ := exists_of_bind_eq_ok h
    obtain ⟨⟨e, vs⟩, he, h⟩ := exists_of_bind_eq_ok h
    obtain ⟨ws, hws, h⟩ := exists_of_bind_eq_ok h
    cases h
    obtain ⟨hts, -⟩ := eq_cons_of_advance (by simp) hnext hus
    obtain ⟨m, rfl, used, husUsed, hused, -⟩ := hd.comparison us _ he
    obtain ⟨hvs, hopen⟩ := eq_cons_of_expect (by decide) hws
    refine ⟨.leftParen :: (used ++ [.rightParen]), ?_, hused.parens, hopen⟩
    dsimp only at husUsed hvs
    rw [hts, husUsed, hvs]
    simp
  · rename_i w hnext
    obtain ⟨us, hus, h⟩ := exists_of_bind_eq_ok h
    obtain ⟨hts, hopen⟩ := eq_cons_of_advance (by simp) hnext hus
    rw [hts]
    split at h
    · obtain ⟨used, husUsed, hused, hopen⟩ := took_call hd h
      exact ⟨.identifier w :: used, congrArg (_ :: ·) husUsed, hused, hopen⟩
    · obtain ⟨e, he, h⟩ := exists_of_bind_eq_ok h
      cases h
      exact ⟨[.identifier w], rfl, .constant (named_eq_ok_iff.1 he), hopen⟩
  · cases h

theorem took_signed (hd : Sound fault n d) {r : Expression × List Token}
    (h : signed fault bound d ts = .ok r) : Took fault n .signed ts r := by
  unfold signed at h
  split at h
  · exact (took_primary hd h).imp fun _ => .unsigned
  · rename_i op hop
    have hk : next ts ≠ .finish := by
      intro hfinish
      rw [hfinish] at hop
      cases hop
    obtain ⟨us, hus, h⟩ := exists_of_bind_eq_ok h
    obtain ⟨⟨e, vs⟩, he, h⟩ := exists_of_bind_eq_ok h
    cases h
    obtain ⟨hts, -⟩ := eq_cons_of_advance hk rfl hus
    obtain ⟨m, rfl, used, husUsed, hused, hopen⟩ := hd.signed us _ he
    refine ⟨next ts :: used, ?_, hused.sign (sign?_eq_some_iff.1 hop), hopen⟩
    dsimp only at husUsed
    rw [List.cons_append, ← husUsed, ← hts]

theorem took_power (hd : Sound fault n d) {r : Expression × List Token}
    (h : power fault bound d ts = .ok r) : Took fault n .power ts r := by
  obtain ⟨⟨left, us⟩, hleft, h⟩ := exists_of_bind_eq_ok h
  have htook := took_signed hd hleft
  dsimp only at h
  split at h
  · rename_i hcaret
    obtain ⟨used, hts, hused, -⟩ := htook
    obtain ⟨vs, hvs, h⟩ := exists_of_bind_eq_ok h
    obtain ⟨⟨right, ws⟩, hright, h⟩ := exists_of_bind_eq_ok h
    cases h
    obtain ⟨hus, -⟩ := eq_cons_of_advance (by decide) hcaret hvs
    obtain ⟨m, rfl, used', hvsUsed, hused', hopen⟩ := hd.power vs _ hright
    refine ⟨used ++ .caret :: used', ?_, hused.power hused', hopen⟩
    dsimp only at hvsUsed hus hts
    rw [hts, hus, hvsUsed]
    simp
  · cases h
    exact htook.imp fun _ => .base

theorem took_comparison (hd : Sound fault n d) {r : Expression × List Token}
    (h : comparison fault bound d ts = .ok r) : Took fault n (.chain .comparison) ts r :=
  took_chain (c := .comparison) (fun _ _ => took_chain (c := .sum) fun _ _ =>
    took_chain (c := .product) fun _ _ => took_power hd) h

/-- What a limited reader reads is derived within its limit. -/
theorem sound_deeper (fault : Option ParseError) (bound n : Nat) :
    Sound fault n (deeper fault bound n) := by
  induction n with
  | zero => exact ⟨fun _ _ => nofun, fun _ _ => nofun, fun _ _ => nofun⟩
  | succ n ih =>
    exact ⟨fun ts r h => ⟨n, rfl, took_comparison ih h⟩, fun ts r h => ⟨n, rfl, took_power ih h⟩,
      fun ts r h => ⟨n, rfl, took_signed ih h⟩⟩

end Spreadsheet.Expression.Parser
