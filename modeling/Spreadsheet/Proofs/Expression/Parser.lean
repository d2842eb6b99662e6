import Spreadsheet.Proofs.Expression.Sound
import Spreadsheet.Proofs.Expression.Spelling

/-!
The parser against the grammar. What is derived is read: where no token behind can continue a
phrase, its reader takes exactly the phrase away, or finds it nested too deeply. Main statement: a
text is accepted exactly if its tokens form an expression within the limit, and as that expression.
-/
namespace Spreadsheet.Expression

open Spreadsheet.Expression.Parser

variable {bound n m : Nat} {d : Deeper} {c : Category} {k : Token} {ts us rest : List Token}
  {e : Expression} {w : Text}

namespace Parser

@[simp] theorem next_cons (k : Token) (ts : List Token) : next (k :: ts) = k := rfl

theorem advance_none (ts : List Token) : advance none ts = .ok ts.tail := by
  unfold advance
  split
  · rename_i h
    cases h
  · rfl

theorem expect_none (k : Token) (ts : List Token) : expect none k (k :: ts) = .ok ts := by
  unfold expect
  rw [if_pos (next_cons k ts)]
  exact advance_none (k :: ts)

theorem call_of_signature {f : Helper} (h : Signature (w.map Char.toLower) f n) (ts : List Token) :
    call none bound d w (.leftParen :: ts) =
      arguments none bound d.comparison ts >>= fun r => expect none .rightParen r.2 >>= fun us =>
        if f.arity.admits r.1.length then .ok (.call f r.1, us)
        else .error (.argumentCount f r.1.length) := by
  unfold call
  rw [ofName?_eq_some_iff.2 (signature_iff.1 h).1]
  simp only [expect_none]
  rfl

theorem primary_number (x : Float) (ts : List Token) :
    primary none bound d (.number x :: ts) = .ok (.number x, ts) := by
  unfold primary
  simp only [next_cons, advance_none]
  rfl

theorem primary_call (w : Text) (ts : List Token) :
    primary none bound d (.identifier w :: .leftParen :: ts) =
      call none bound d w (.leftParen :: ts) := by
  unfold primary
  simp only [next_cons, advance_none]
  rfl

theorem primary_name (w : Text) (h : next ts ≠ .leftParen) :
    primary none bound d (.identifier w :: ts) = named w >>= fun e => .ok (e, ts) := by
  unfold primary
  simp only [next_cons, advance_none]
  exact if_neg h

theorem primary_parens (ts : List Token) : primary none bound d (.leftParen :: ts) =
    d.comparison ts >>= fun r => expect none .rightParen r.2 >>= fun us => .ok (r.1, us) := by
  unfold primary
  simp only [next_cons, advance_none]
  rfl

theorem signed_unsigned (h : (next ts).sign? = none) :
    signed none bound d ts = primary none bound d ts := by
  unfold signed
  simp only [h]

theorem sign?_next_of_primary (h : Derives n .primary ts e) (rest : List Token) :
    (next (ts ++ rest)).sign? = none := by
  cases h <;> rfl

theorem signed_sign {op : UnaryOperator} (h : Sign k op) (ts : List Token) :
    signed none bound d (k :: ts) = d.signed ts >>= fun r => .ok (.unary op r.1, r.2) := by
  unfold signed
  simp only [next_cons, advance_none, sign?_eq_some_iff.2 h]
  rfl

theorem power_eq (ts : List Token) : power none bound d ts =
    signed none bound d ts >>= fun r =>
      if next r.2 = .caret then
        d.power r.2.tail >>= fun s => .ok (.binary (.arithmetic .power) r.1 s.1, s.2)
      else .ok r := by
  unfold power
  simp only [advance_none]
  rfl

/-- The result, or the limit where it may have been exceeded. -/
def Outcome {α : Type} (deep : Prop) (x : Except ParseError α) (a : α) : Prop :=
  x = .ok a ∨ deep ∧ x = .error .nestedTooDeeply

variable {deep : Prop}

theorem Outcome.bind {α β : Type} {x : Except ParseError α} {f : α → Except ParseError β} {a : α}
    {b : β} (hx : Outcome deep x a) (hf : Outcome deep (f a) b) : Outcome deep (x >>= f) b := by
  rcases hx with rfl | ⟨hdeep, rfl⟩
  · exact hf
  · exact .inr ⟨hdeep, rfl⟩

theorem Outcome.opened {field : Deeper → Reader Expression} {a : Expression × List Token}
    (hzero : field (deeper none bound 0) ts = .error .nestedTooDeeply)
    (hsucc : ∀ n, field (deeper none bound (n + 1)) = readerOf none bound (deeper none bound n) c)
    (h : ∀ n, Outcome (n < m) (readerOf none bound (deeper none bound n) c ts) a) :
    Outcome (n < m + 1) (field (deeper none bound n) ts) a := by
  cases n with
  | zero => exact .inr ⟨m.succ_pos, hzero⟩
  | succ n =>
    rw [hsucc]
    exact (h n).imp_right (And.imp_left Nat.succ_lt_succ)

theorem chainFrom_of_stops {c : Chain} (operand : Reader Expression)
    (h : (next rest).tightness < (Category.chain c).tightness) :
    chainFrom none c.operator? operand n e rest = .ok (e, rest) := by
  cases n with
  | zero => rfl
  | succ n =>
    unfold chainFrom
    rw [operator?_of_tightness_lt h]

/-- A phrase in front of what no phrase of its category goes on with is read. Of a chain, the front
is read up to its last operand, whatever is read from there: it goes on where the chain is longer. -/
def Readable (bound m : Nat) : Category → List Token → Expression → Prop
  | .chain c, ts, e => ∀ n, ∃ size ≤ ts.length, ∀ N rest r,
      (next rest).tightness < c.operand.tightness →
      Outcome (n < m)
        (chainFrom none c.operator? (readerOf none bound (deeper none bound n) c.operand) N e rest)
        r →
      Outcome (n < m)
        (chain none (N + size) c.operator? (readerOf none bound (deeper none bound n) c.operand)
          (ts ++ rest)) r
  | c, ts, e => ∀ n rest, (next rest).tightness < c.tightness →
      Outcome (n < m) (readerOf none bound (deeper none bound n) c (ts ++ rest)) (e, rest)

theorem Readable.outcome (h : Readable bound m c ts e) (hlength : ts.length ≤ bound) (n : Nat)
    {rest : List Token} (hrest : (next rest).tightness < c.tightness) :
    Outcome (n < m) (readerOf none bound (deeper none bound n) c (ts ++ rest)) (e, rest) := by
  cases c with
  | chain c =>
    obtain ⟨size, hsize, h⟩ := h n
    have hread := h (bound - size) rest (e, rest)
      (by rw [tightness_operand]; exact Nat.lt_succ_of_lt hrest) (.inl (chainFrom_of_stops _ hrest))
    rwa [Nat.sub_add_cancel (Nat.le_trans hsize hlength), ← readerOf_chain] at hread
  | power => exact h n rest hrest
  | signed => exact h n rest hrest
  | primary => exact h n rest hrest

theorem readable_single {c : Chain} (h : Readable bound m c.operand ts e)
    (hlength : ts.length ≤ bound) : Readable bound m (.chain c) ts e := by
  intro n
  refine ⟨0, Nat.zero_le _, fun N rest r hrest hmore => ?_⟩
  exact (h.outcome hlength n hrest).bind hmore

theorem readable_step {c : Chain} {op : BinaryOperator} {a b : Expression}
    (hleft : Readable bound m (.chain c) ts a) (hk : c.Operator k op)
    (hright : Readable bound m c.operand us b) (hlength : us.length ≤ bound) :
    Readable bound m (.chain c) (ts ++ k :: us) (.binary op a b) := by
  intro n
  obtain ⟨size, hsize, h⟩ := hleft n
  refine ⟨size + 1, by simp; omega, fun N rest r hrest hmore => ?_⟩
  have htight : k.tightness < c.operand.tightness := by
    rw [hk.tightness_eq, tightness_operand]
    exact Nat.lt_succ_self _
  have hread := h (N + 1) (k :: (us ++ rest)) r htight (by
    unfold chainFrom
    rw [next_cons, operator?_eq_some_iff.2 hk, advance_none]
    exact (hright.outcome hlength n hrest).bind hmore)
  rw [List.append_assoc, List.cons_append]
  rwa [Nat.add_right_comm, Nat.add_assoc] at hread

theorem tightness_behind_argument (tss : List (List Token)) (rest : List Token) :
    (next (tss.flatMap (.comma :: ·) ++ .rightParen :: rest)).tightness = 0 := by
  cases tss <;> rfl

theorem outcome_moreArguments {argument : Reader Expression}
    {args : List (List Token × Expression)} (rest : List Token)
    (h : ∀ arg ∈ args, ∀ rest, (next rest).tightness = 0 →
      Outcome deep (argument (arg.1 ++ rest)) (arg.2, rest)) (hlength : args.length ≤ bound) :
    Outcome deep
      (moreArguments none argument bound
        ((args.map Prod.fst).flatMap (.comma :: ·) ++ .rightParen :: rest))
      (args.map Prod.snd, .rightParen :: rest) := by
  induction args generalizing bound with
  | nil => cases bound <;> exact .inl rfl
  | cons arg args ih =>
    obtain ⟨harg, hargs⟩ := List.forall_mem_cons.1 h
    cases bound with
    | zero => cases hlength
    | succ bound =>
      have hmore := ih hargs (Nat.le_of_succ_le_succ hlength)
      simp only [List.map_cons, List.flatMap_cons, List.append_assoc, List.cons_append]
      unfold moreArguments
      rw [if_pos (next_cons _ _), advance_none]
      exact (harg _ (tightness_behind_argument _ rest)).bind (hmore.bind (.inl rfl))

theorem outcome_arguments {argument : Reader Expression} {args : List (List Token × Expression)}
    (rest : List Token)
    (hfirst : ∀ arg ∈ args, ∃ k us, arg.1 = k :: us ∧ k ≠ .rightParen)
    (h : ∀ arg ∈ args, ∀ rest, (next rest).tightness = 0 →
      Outcome deep (argument (arg.1 ++ rest)) (arg.2, rest)) (hlength : args.length ≤ bound) :
    Outcome deep
      (arguments none bound argument
        ([Token.comma].intercalate (args.map Prod.fst) ++ .rightParen :: rest))
      (args.map Prod.snd, .rightParen :: rest) := by
  cases args with
  | nil => exact .inl rfl
  | cons arg args =>
    obtain ⟨harg, hargs⟩ := List.forall_mem_cons.1 h
    obtain ⟨k, us, harg₁, hk⟩ := hfirst arg List.mem_cons_self
    have hmore := outcome_moreArguments rest hargs (Nat.le_trans (Nat.le_succ _) hlength)
    rw [List.map_cons, intercalate_cons, List.append_assoc]
    unfold arguments
    rw [if_neg (by rw [harg₁]; exact hk)]
    exact (harg _ (tightness_behind_argument _ rest)).bind (hmore.bind (.inl rfl))

theorem length_intercalate {us : List Token} {tss : List (List Token)} (h : us ∈ tss) :
    us.length + tss.length ≤ ([Token.comma].intercalate tss).length + 1 := by
  induction tss generalizing us with
  | nil => cases h
  | cons vs tss ih =>
    cases tss with
    | nil => simp [List.mem_singleton.1 h]
    | cons ws tss =>
      rw [List.intercalate_cons_cons]
      simp only [List.length_append, List.length_cons, List.length_nil] at ih ⊢
      rcases List.mem_cons.1 h with rfl | h
      · have hle := ih (List.mem_cons_self : ws ∈ ws :: tss)
        omega
      · have hle := ih h
        omega

theorem readable_call {f : Helper} {args : List (List Token × Expression)}
    (hf : Signature (w.map Char.toLower) f args.length) (hlevel : args ≠ [] → n = m + 1)
    (hfirst : ∀ arg ∈ args, ∃ k us, arg.1 = k :: us ∧ k ≠ .rightParen)
    (h : ∀ arg ∈ args, Readable bound m (.chain .comparison) arg.1 arg.2)
    (hlength : ([Token.comma].intercalate (args.map Prod.fst)).length + 1 ≤ bound) :
    Readable bound n .primary
      (.identifier w :: .leftParen ::
        ([Token.comma].intercalate (args.map Prod.fst) ++ [.rightParen]))
      (.call f (args.map Prod.snd)) := by
  intro n' rest _
  have hlengths : ∀ arg ∈ args, arg.1.length + args.length ≤ bound := by
    intro arg harg
    have hle := length_intercalate (List.mem_map_of_mem (f := Prod.fst) harg)
    rw [List.length_map] at hle
    exact Nat.le_trans hle hlength
  have hargs : ∀ arg ∈ args, ∀ rest, (next rest).tightness = 0 →
      Outcome (n' < n) ((deeper none bound n').comparison (arg.1 ++ rest)) (arg.2, rest) := by
    intro arg harg rest hrest
    rw [hlevel (List.ne_nil_of_mem harg)]
    refine .opened (c := .chain .comparison) rfl (fun _ => rfl) fun n => ?_
    refine (h arg harg).outcome ?_ n (by rw [hrest]; decide)
    exact Nat.le_trans (Nat.le_add_right _ _) (hlengths arg harg)
  have hcountBound : args.length ≤ bound := by
    cases args with
    | nil => exact Nat.zero_le _
    | cons arg args => exact Nat.le_trans (Nat.le_add_left _ _) (hlengths arg List.mem_cons_self)
  have hread := outcome_arguments rest hfirst hargs hcountBound
  rw [List.cons_append, List.cons_append, List.append_assoc, List.singleton_append]
  rw [readerOf_primary, primary_call, call_of_signature hf]
  refine hread.bind (.inl ?_)
  simp only [expect_none, List.length_map]
  exact if_pos (signature_iff.1 hf).2

/-- What is derived is read, phrase by phrase. -/
theorem readable (h : Derives m c ts e) (hlength : ts.length ≤ bound) :
    Readable bound m c ts e := by
  induction h with
  | single _ ih => exact readable_single (ih hlength) hlength
  | step _ hk _ ihleft ihright =>
    simp only [List.length_append, List.length_cons] at hlength
    exact readable_step (ihleft (by omega)) hk (ihright (by omega)) (by omega)
  | base h ih =>
    intro n rest hrest
    have hleft := (ih hlength).outcome hlength n (Nat.lt_succ_of_lt hrest)
    rw [readerOf_power, power_eq]
    refine hleft.bind (.inl (if_neg ?_))
    intro hcaret
    rw [hcaret] at hrest
    exact absurd hrest (by decide)
  | @power m ts us a b _ _ ihbase ihexponent =>
    simp only [List.length_append, List.length_cons] at hlength
    intro n rest hrest
    have hleft : Outcome (n < m + 1)
        (signed none bound (deeper none bound n) (ts ++ .caret :: (us ++ rest)))
        (a, .caret :: (us ++ rest)) :=
      (ihbase (by omega)).outcome (by omega) n (show 4 < 5 by decide)
    have hright : Outcome (n < m + 1) ((deeper none bound n).power (us ++ rest)) (b, rest) :=
      .opened (c := .power) rfl (fun _ => rfl) fun n =>
        (ihexponent (by omega)).outcome (by omega) n hrest
    rw [readerOf_power, power_eq, List.append_assoc, List.cons_append]
    exact hleft.bind (hright.bind (.inl rfl))
  | @unsigned m ts e h ih =>
    intro n rest hrest
    have hread := (ih hlength).outcome hlength n hrest
    rw [readerOf_signed, signed_unsigned (sign?_next_of_primary h rest)]
    exact hread
  | @sign m ts k op e hk _ ih =>
    intro n rest hrest
    rw [List.length_cons] at hlength
    have hread : Outcome (n < m + 1) ((deeper none bound n).signed (ts ++ rest)) (e, rest) :=
      .opened (c := .signed) rfl (fun _ => rfl) fun n =>
        (ih (by omega)).outcome (by omega) n hrest
    rw [readerOf_signed]
    rw [List.cons_append, signed_sign hk]
    exact hread.bind (.inl rfl)
  | number x =>
    intro n rest hrest
    rw [readerOf_primary, List.singleton_append, primary_number]
    exact .inl rfl
  | @constant m w e hw =>
    intro n rest hrest
    have hnext : next rest ≠ .leftParen := by
      intro hparen
      rw [hparen] at hrest
      exact absurd hrest (by decide)
    rw [readerOf_primary, List.singleton_append, primary_name w hnext, named_eq_ok_iff.2 hw]
    exact .inl rfl
  | @parens m ts e _ ih =>
    intro n rest _
    simp only [List.length_append, List.length_cons] at hlength
    have hread : Outcome (n < m + 1) ((deeper none bound n).comparison (ts ++ .rightParen :: rest))
        (e, .rightParen :: rest) :=
      .opened (c := .chain .comparison) rfl (fun _ => rfl) fun n =>
        (ih (by omega)).outcome (by omega) n Nat.one_pos
    rw [readerOf_primary, List.cons_append, List.append_assoc, List.singleton_append, primary_parens]
    refine hread.bind (.inl ?_)
    rw [expect_none]
    rfl
  | @call n m w f args hf hlevel h ih =>
    simp only [List.length_append, List.length_cons] at hlength
    refine readable_call hf hlevel (fun arg harg => (h arg harg).exists_cons)
      (fun arg harg => ih arg harg ?_) (by omega)
    have hle := length_intercalate (List.mem_map_of_mem (f := Prod.fst) harg)
    have hpos := List.length_pos_of_mem harg
    rw [List.length_map] at hle
    omega

end Parser

/-- The tokens end where none is left and no fault stands behind them. -/
theorem spells_of_next_eq_finish {t : Text} {used : List Token}
    (htokens : (Tokens.ofText t).tokens = used ++ rest) (hopen : Open (Tokens.ofText t).fault rest)
    (hfinish : next rest = .finish) : Spells t used := by
  have hrest : rest = [] := by
    cases rest with
    | nil => rfl
    | cons k rest =>
      have hmem : .finish ∈ (Tokens.ofText t).tokens := by
        rw [htokens, show k = .finish from hfinish]
        simp
      exact absurd hmem (finish_not_mem_ofText t)
  have hfault : (Tokens.ofText t).fault = none := Decidable.not_not.1 fun h => hopen h hrest
  refine ofText_eq_iff.1 ?_
  rw [hrest, List.append_nil] at htokens
  rw [← htokens, ← hfault]

theorem exists_derives_of_parse {t : Text} (h : parse t = .ok e) :
    ∃ ts, Spells t ts ∧ Derives (maxNesting - 1) (.chain .comparison) ts e := by
  unfold parse Tokens.parse at h
  split at h
  · cases h
  · obtain ⟨start, hstart, h⟩ := exists_of_bind_eq_ok h
    obtain rfl := Except.ok.inj hstart
    obtain ⟨⟨e', rest⟩, he, h⟩ := exists_of_bind_eq_ok h
    dsimp only at h
    split at h
    · rename_i hfinish
      cases h
      obtain ⟨m, hm, used, hused, hd, hopen⟩ := (sound_deeper _ _ maxNesting).comparison _ _ he
      obtain rfl : m = maxNesting - 1 := by rw [hm]; rfl
      exact ⟨used, spells_of_next_eq_finish hused hopen hfinish, hd⟩
    · cases h

/-- A text of tokens that form an expression is read, or found nested too deeply. -/
theorem outcome_parse {t : Text} (hts : Spells t ts) (h : Derives m (.chain .comparison) ts e) :
    Outcome (maxNesting < m + 1) (parse t) e := by
  have hread : Outcome (maxNesting < m + 1)
      ((deeper none ts.length maxNesting).comparison (ts ++ [])) (e, []) :=
    .opened (c := .chain .comparison) rfl (fun _ => rfl) fun n =>
      (readable h (Nat.le_refl _)).outcome (Nat.le_refl _) n Nat.one_pos
  rw [List.append_nil] at hread
  unfold parse Tokens.parse
  rw [ofText_eq_iff.2 hts]
  cases ts <;> exact Outcome.bind (.inl rfl) (hread.bind (.inl rfl))

theorem parse_of_derives {t : Text} (hts : Spells t ts)
    (h : Derives (maxNesting - 1) (.chain .comparison) ts e) : parse t = .ok e :=
  (outcome_parse hts h).resolve_right fun hdeep => absurd hdeep.1 (by decide)

theorem derives_of_parse {t : Text} (hts : Spells t ts) (h : parse t = .ok e) :
    Derives (maxNesting - 1) (.chain .comparison) ts e := by
  obtain ⟨ts', hts', hd⟩ := exists_derives_of_parse h
  obtain ⟨rfl, -⟩ := Tokens.mk.inj ((ofText_eq_iff.2 hts).symm.trans (ofText_eq_iff.2 hts'))
  exact hd

/-- A text is an expression exactly if its tokens form it with at most 256 levels open at once, of
which the whole is one. Names other than those of constants and of helpers
are in no expression. -/
theorem parse_eq_ok_iff (t : Text) :
    (∀ e, parse t = .ok e ↔ ∃ ts, Spells t ts ∧ Derives 255 (.chain .comparison) ts e) ∧
    ∀ w, .identifier w ∈ (Tokens.ofText t).tokens → ¬IsKnownName w → ∀ e, parse t ≠ .ok e := by
  refine ⟨fun e => ⟨exists_derives_of_parse, ?_⟩, ?_⟩
  · rintro ⟨ts, hts, h⟩
    exact parse_of_derives hts h
  · intro w hw hname e h
    obtain ⟨ts, hts, hd⟩ := exists_derives_of_parse h
    rw [ofText_eq_iff.2 hts] at hw
    exact hname (hd.isKnownName hw)

theorem not_isKnownName_foo : ¬IsKnownName ['f', 'o', 'o'] := by
  rintro (h | ⟨f, n, hf⟩)
  · revert h
    decide
  · cases hf

/-- The sign of a base is part of it. -/
theorem parse_eq_ok_iff_signedBase :
    parse "-2^Pi".toList =
      .ok (.binary (.arithmetic .power) (.unary .negate (.number 2)) (.number pi)) ∧
    ∀ e, parse "1+foo(2)".toList ≠ .ok e := by
  constructor
  · have htokens : Spells "-2^Pi".toList
        [.minus, .number 2, .caret, .identifier ['P', 'i']] := by
      rw [← ofText_eq_iff, Tokens.mk.injEq]
      decide +kernel
    refine ((parse_eq_ok_iff _).1 _).2 ⟨_, htokens, ?_⟩
    have hbase : Derives 255 .signed [.minus, .number 2] (.unary .negate (.number 2)) :=
      .sign .minus (.unsigned (.number 2))
    have hexponent : Derives 254 .power [.identifier ['P', 'i']] (.number pi) :=
      .base (.unsigned (.constant (by simp [constants])))
    exact .single (.single (.single (.power hbase hexponent)))
  · exact (parse_eq_ok_iff _).2 ['f', 'o', 'o'] (by decide +kernel) not_isKnownName_foo

end Spreadsheet.Expression
