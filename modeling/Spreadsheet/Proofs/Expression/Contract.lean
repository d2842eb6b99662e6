import Mathlib.Algebra.Ring.Int.Defs
import Spreadsheet.Proofs.Expression.Seam

/-!
Signed numbers as single operands. Parentheses are balanced in every expression, so that the only
phrase between those of a signed number is the number itself, and a minus sign that no operand stands
in front of is a sign. Wherever an operand may stand, a number can therefore replace a number with its
sign and with parentheses around it.
-/
namespace Spreadsheet.Expression

variable {n : Nat} {c : Category} {k : Token} {ts us xs ys p : List Token} {e : Expression}

section Balance

def weight : Token → Int
  | .leftParen => 1
  | .rightParen => -1
  | _ => 0

/-- How many parentheses are open behind the tokens. -/
def depth (ts : List Token) : Int := (ts.map weight).sum

@[simp] theorem depth_append (ts us : List Token) : depth (ts ++ us) = depth ts + depth us := by
  simp [depth]

@[simp] theorem depth_cons (k : Token) (ts : List Token) : depth (k :: ts) = weight k + depth ts :=
  by simp [depth]

@[simp] theorem depth_nil : depth [] = 0 := rfl

/-- Every parenthesis that is opened is closed, and none before. -/
structure Balanced (ts : List Token) : Prop where
  depth_eq : depth ts = 0
  nonneg : ∀ xs ys, ts = xs ++ ys → 0 ≤ depth xs

theorem balanced_nil : Balanced [] where
  depth_eq := rfl
  nonneg := by
    intro xs ys h
    rw [(List.append_eq_nil_iff.1 h.symm).1]
    exact Int.le_refl 0

theorem balanced_singleton (h : weight k = 0) : Balanced [k] where
  depth_eq := by simp [h]
  nonneg := by
    intro xs ys heq
    cases xs with
    | nil => exact Int.le_refl 0
    | cons j xs =>
      obtain ⟨rfl, hrest⟩ := List.cons.inj heq
      rw [(List.append_eq_nil_iff.1 hrest.symm).1, depth_cons, h]
      exact Int.le_refl 0

theorem Balanced.append (hts : Balanced ts) (hus : Balanced us) : Balanced (ts ++ us) where
  depth_eq := by rw [depth_append, hts.depth_eq, hus.depth_eq, Int.add_zero]
  nonneg := by
    intro xs ys h
    rcases List.append_eq_append_iff.1 h with ⟨zs, rfl, hrest⟩ | ⟨zs, rfl, -⟩
    · rw [depth_append, hts.depth_eq, Int.zero_add]
      exact hus.nonneg zs ys hrest
    · exact hts.nonneg xs zs rfl

theorem Balanced.cons (hk : weight k = 0) (h : Balanced ts) : Balanced (k :: ts) :=
  (balanced_singleton hk).append h

theorem Balanced.parens (h : Balanced ts) : Balanced (.leftParen :: (ts ++ [.rightParen])) where
  depth_eq := by simp [h.depth_eq, weight]
  nonneg := by
    intro xs ys heq
    cases xs with
    | nil => exact Int.le_refl 0
    | cons j xs =>
      obtain ⟨rfl, hrest⟩ := List.cons.inj heq
      rw [depth_cons]
      have hinner : -1 ≤ depth xs := by
        rcases List.append_eq_append_iff.1 hrest with ⟨zs, rfl, hclose⟩ | ⟨zs, rfl, -⟩
        · rw [depth_append, h.depth_eq, Int.zero_add]
          cases zs with
          | nil => decide
          | cons i zs =>
            obtain ⟨rfl, hnil⟩ := List.cons.inj hclose
            rw [(List.append_eq_nil_iff.1 hnil.symm).1]
            decide
        · have := h.nonneg xs zs rfl
          omega
      have hleft : weight .leftParen = 1 := rfl
      omega

theorem balanced_arguments {args : List (List Token × Expression)}
    (h : ∀ arg ∈ args, Balanced arg.1) :
    Balanced ([Token.comma].intercalate (args.map Prod.fst)) :=
  intercalate_comma balanced_nil (fun hus hvs => hus.append (hvs.cons rfl)) (List.forall_mem_map.2 h)

theorem Chain.Operator.weight_eq {c : Chain} {op : BinaryOperator} (h : c.Operator k op) :
    weight k = 0 := by
  cases h <;> rfl

theorem Derives.balanced (h : Derives n c ts e) : Balanced ts := by
  induction h with
  | single _ ih => exact ih
  | step _ hk _ ihleft ihright => exact ihleft.append (ihright.cons hk.weight_eq)
  | base _ ih => exact ih
  | power _ _ ihbase ihexponent => exact ihbase.append (ihexponent.cons rfl)
  | unsigned _ ih => exact ih
  | @sign n ts k op e hk _ ih =>
    apply ih.cons
    cases hk <;> rfl
  | number x => exact balanced_singleton rfl
  | constant _ => exact balanced_singleton rfl
  | parens _ ih => exact ih.parens
  | call _ _ _ ih => exact (balanced_arguments ih).parens.cons rfl

end Balance

theorem Derives.exists_concat (h : Derives n c ts e) : ∃ us k, ts = us ++ [k] ∧ ¬Opens k := by
  induction h with
  | single _ ih => exact ih
  | @step n c ts us k op a b _ _ _ _ ih =>
    obtain ⟨vs, j, rfl, hj⟩ := ih
    exact ⟨ts ++ k :: vs, j, by simp, hj⟩
  | base _ ih => exact ih
  | @power n ts us a b _ _ _ ih =>
    obtain ⟨vs, j, rfl, hj⟩ := ih
    exact ⟨ts ++ .caret :: vs, j, by simp, hj⟩
  | unsigned _ ih => exact ih
  | @sign n ts k op e _ _ ih =>
    obtain ⟨vs, j, rfl, hj⟩ := ih
    exact ⟨k :: vs, j, rfl, hj⟩
  | number x => exact ⟨[], .number x, rfl, by simp [Opens, isOperand]⟩
  | @constant n w e _ => exact ⟨[], .identifier w, rfl, by simp [Opens, isOperand]⟩
  | @parens n ts e _ _ => exact ⟨.leftParen :: ts, .rightParen, rfl, by simp [Opens]⟩
  | @call n m w f args _ _ _ _ =>
    exact ⟨.identifier w :: .leftParen :: [Token.comma].intercalate (args.map Prod.fst), .rightParen,
      rfl, by simp [Opens]⟩

theorem Derives.not_openAfter (h : Derives n c ts e) : ¬OpenAfter ts := by
  obtain ⟨us, k, rfl, hk⟩ := h.exists_concat
  exact fun hopen => hk (hopen k List.getLast?_concat)

section Phrase

/-- A number with at most one minus sign before it. -/
inductive IsSigned : List Token → Prop
  | plain (y : Float) : IsSigned [.number y]
  | minus (y : Float) : IsSigned [.minus, .number y]

/-- A number with at most one minus sign, in parentheses or without. -/
inductive IsSignedNumber : List Token → Prop
  | bare {ts : List Token} (h : IsSigned ts) : IsSignedNumber ts
  | parens {ts : List Token} (h : IsSigned ts) : IsSignedNumber (.leftParen :: (ts ++ [.rightParen]))

/-- In front of a token of a signed number that is no parenthesis an operand may stand. -/
theorem IsSignedNumber.openAfter (h : IsSignedNumber (xs ++ k :: ys)) (hk : weight k = 0) :
    OpenAfter xs := by
  generalize hp : xs ++ k :: ys = p at h
  unfold OpenAfter
  have hopen : Opens .leftParen := ⟨rfl, nofun⟩
  have hminus : Opens .minus := ⟨rfl, nofun⟩
  cases h with
  | bare h =>
    cases h with
    | plain y => rcases xs with _ | ⟨a, xs⟩ <;> simp at hp ⊢
    | minus y => rcases xs with _ | ⟨a, _ | ⟨b, xs⟩⟩ <;> simp_all
  | parens h =>
    cases h with
    | plain y => rcases xs with _ | ⟨a, _ | ⟨b, _ | ⟨d, xs⟩⟩⟩ <;> simp_all [weight]
    | minus y => rcases xs with _ | ⟨a, _ | ⟨b, _ | ⟨d, _ | ⟨f, xs⟩⟩⟩⟩ <;> simp_all [weight]

theorem IsSignedNumber.exists_cons (h : IsSignedNumber p) :
    ∃ k zs, p = k :: zs ∧ ∀ w, k ≠ .identifier w := by
  cases h with
  | bare h => cases h <;> exact ⟨_, _, rfl, by simp⟩
  | parens _ => exact ⟨_, _, rfl, by simp⟩

/-- A signed number is a signed phrase, with at most two levels open in it. -/
theorem IsSignedNumber.exists_derives (h : IsSignedNumber p) : ∃ e, Derives 2 .signed p e := by
  have hsigned : ∀ {p}, IsSigned p → ∃ e, Derives 1 .signed p e := by
    intro p hp
    cases hp with
    | plain y => exact ⟨.number y, .unsigned (.number y)⟩
    | minus y => exact ⟨.unary .negate (.number y), .sign .minus (.unsigned (.number y))⟩
  cases h with
  | bare h =>
    obtain ⟨e, he⟩ := hsigned h
    exact ⟨e, he.mono (by decide)⟩
  | parens h =>
    obtain ⟨e, he⟩ := hsigned h
    exact ⟨e, .unsigned (.parens (.single (.single (.single (.base he)))))⟩

/-- A signed number lies on one side of an operator that an expression stands in front of. -/
theorem IsSignedNumber.left_or_right (hp : IsSignedNumber p) (hts : Derives n c ts e)
    (hk : weight k = 0) (hxs : OpenAfter xs) (heq : ts ++ k :: us = xs ++ (p ++ ys)) :
    (∃ zs, ts = xs ++ (p ++ zs) ∧ ys = zs ++ k :: us) ∨
      ∃ zs, us = zs ++ (p ++ ys) ∧ xs = ts ++ k :: zs := by
  rcases List.append_eq_append_iff.1 heq with ⟨zs, rfl, hrest⟩ | ⟨zs, rfl, hrest⟩
  · cases zs with
    | nil =>
      rw [List.append_nil] at hxs
      exact absurd hxs hts.not_openAfter
    | cons j zs =>
      obtain ⟨rfl, rfl⟩ := List.cons.inj hrest
      exact .inr ⟨zs, rfl, rfl⟩
  · rcases List.append_eq_append_iff.1 hrest with ⟨zs', rfl, rfl⟩ | ⟨zs', rfl, hinner⟩
    · exact .inl ⟨zs', rfl, rfl⟩
    · cases zs' with
      | nil =>
        rw [List.append_nil]
        exact .inl ⟨[], by rw [List.append_nil], hinner.symm⟩
      | cons j zs' =>
        obtain ⟨rfl, -⟩ := List.cons.inj hinner
        refine absurd ?_ hts.not_openAfter
        have hzs := hp.openAfter hk
        intro i hi
        rw [Option.mem_def, List.getLast?_append, Option.or_eq_some_iff] at hi
        rcases hi with hi | ⟨-, hi⟩
        · exact hzs i hi
        · exact hxs i hi

/-- Before the parenthesis that closes what is balanced lies a signed number as a whole. -/
theorem IsSignedNumber.before_close (hp : IsSignedNumber p) (hts : Balanced ts)
    (heq : ts ++ [.rightParen] = xs ++ (p ++ ys)) :
    ∃ zs, ts = xs ++ (p ++ zs) ∧ ys = zs ++ [.rightParen] := by
  rcases List.eq_nil_or_concat' ys with rfl | ⟨zs, k, rfl⟩
  · exfalso
    rw [List.append_nil] at heq
    cases hp with
    | bare h =>
      cases h <;>
      · have hlast := congrArg List.getLast? heq
        simp at hlast
    | @parens s h =>
      rw [← List.cons_append, ← List.append_assoc] at heq
      obtain ⟨rfl, -⟩ := List.append_inj' heq rfl
      have hnumber : depth s = 0 := by cases h <;> rfl
      have hdepth := hts.depth_eq
      have hprefix := hts.nonneg xs _ rfl
      rw [depth_append, depth_cons, hnumber] at hdepth
      have hleft : weight .leftParen = 1 := rfl
      omega
  · rw [← List.append_assoc, ← List.append_assoc] at heq
    obtain ⟨hts', hk⟩ := List.append_inj' heq rfl
    refine ⟨zs, by rw [hts', List.append_assoc], ?_⟩
    rw [hk]

theorem IsSigned.eq_of_close (hs : IsSigned p) (hts : Balanced ts)
    (heq : ts ++ [.rightParen] = p ++ .rightParen :: ys) : ys = [] := by
  rcases List.eq_nil_or_concat' ys with rfl | ⟨zs, k, rfl⟩
  · rfl
  · exfalso
    rw [← List.cons_append, ← List.append_assoc] at heq
    obtain ⟨rfl, -⟩ := List.append_inj' heq rfl
    have hnumber : depth p = 0 := by cases hs <;> rfl
    have hprefix := hts.nonneg (p ++ [.rightParen]) zs (by simp)
    rw [depth_append, hnumber] at hprefix
    exact absurd hprefix (by decide)

theorem eq_nil_of_number {y : Float} (h : Derives n .signed (.number y :: ts) e) : ts = [] := by
  generalize hus : Token.number y :: ts = us at h
  cases h with
  | unsigned h =>
    cases h with
    | number x => exact (List.cons.inj hus).2
    | constant _ => exact (List.cons.inj hus).2
    | parens _ => cases hus
    | call _ _ _ => cases hus
  | sign hk _ =>
    obtain ⟨rfl, -⟩ := List.cons.inj hus
    cases hk

theorem contract_arguments {x : Float} {args : List (List Token × Expression)}
    (hp : IsSignedNumber p) (hargs : ∀ arg ∈ args, Derives n (.chain .comparison) arg.1 arg.2)
    (ih : ∀ arg ∈ args, ∀ {xs ys}, OpenAfter xs → xs ++ (p ++ ys) = arg.1 →
      ∃ e, Derives n (.chain .comparison) (xs ++ .number x :: ys) e)
    (hxs : OpenAfter xs) (heq : [Token.comma].intercalate (args.map Prod.fst) = xs ++ (p ++ ys)) :
    ∃ args' : List (List Token × Expression), args'.length = args.length ∧
      [Token.comma].intercalate (args'.map Prod.fst) = xs ++ .number x :: ys ∧
      ∀ arg ∈ args', Derives n (.chain .comparison) arg.1 arg.2 := by
  induction args generalizing xs with
  | nil =>
    obtain ⟨k, zs, rfl, -⟩ := hp.exists_cons
    simp at heq
  | cons arg args ihargs =>
    obtain ⟨harg, hargs⟩ := List.forall_mem_cons.1 hargs
    obtain ⟨iharg, ih⟩ := List.forall_mem_cons.1 ih
    cases args with
    | nil =>
      obtain ⟨e, he⟩ := iharg hxs (by simpa using heq.symm)
      exact ⟨[(xs ++ .number x :: ys, e)], rfl, by simp, by simpa using he⟩
    | cons arg' args =>
      rw [List.map_cons, List.map_cons, List.intercalate_cons_cons, List.append_assoc] at heq
      rcases hp.left_or_right harg rfl hxs heq with ⟨zs, hzs, rfl⟩ | ⟨zs, hzs, rfl⟩
      · obtain ⟨e, he⟩ := iharg hxs hzs.symm
        refine ⟨(_, e) :: arg' :: args, rfl, ?_, List.forall_mem_cons.2 ⟨he, hargs⟩⟩
        simp
      · obtain ⟨args', hlength, hargs', hds⟩ := ihargs hargs ih hxs.of_append_cons hzs
        cases args' with
        | nil => cases hlength
        | cons b args' =>
          refine ⟨arg :: b :: args', congrArg (· + 1) hlength, ?_, List.forall_mem_cons.2 ⟨harg, hds⟩⟩
          rw [List.map_cons, List.map_cons, List.intercalate_cons_cons, ← List.map_cons, hargs']
          simp

/-- Behind the name of a helper and its parenthesis, a signed number lies in the arguments. -/
theorem contract_call {l : Nat} {w : Text} {f : Helper} {x : Float}
    {args : List (List Token × Expression)} (hp : IsSignedNumber p)
    (hf : Signature (w.map Char.toLower) f args.length) (hlevel : args ≠ [] → n = l + 1)
    (hargs : ∀ arg ∈ args, Derives l (.chain .comparison) arg.1 arg.2)
    (ih : ∀ arg ∈ args, ∀ {xs ys}, OpenAfter xs → xs ++ (p ++ ys) = arg.1 →
      ∃ e, Derives l (.chain .comparison) (xs ++ .number x :: ys) e)
    (hxs : OpenAfter xs)
    (heq : xs ++ (p ++ ys) = .identifier w :: .leftParen ::
      ([Token.comma].intercalate (args.map Prod.fst) ++ [.rightParen])) :
    ∃ e, Derives n .primary (xs ++ .number x :: ys) e := by
  rcases xs with _ | ⟨j, _ | ⟨k, xs⟩⟩
  · obtain ⟨k, zs, rfl, hname⟩ := hp.exists_cons
    exact absurd (List.cons.inj heq).1 (hname w)
  · obtain ⟨rfl, -⟩ := List.cons.inj heq
    have hopens := hxs (.identifier w) rfl
    cases hopens.1
  · obtain ⟨rfl, hrest⟩ := List.cons.inj heq
    obtain ⟨rfl, hinner⟩ := List.cons.inj hrest
    have hbalanced := balanced_arguments fun arg harg => (hargs arg harg).balanced
    obtain ⟨zs, hzs, rfl⟩ := hp.before_close hbalanced hinner.symm
    obtain ⟨args', hlength, hargs', hds⟩ := contract_arguments hp hargs ih hxs.tail.tail hzs
    have hlevel' : args' ≠ [] → n = l + 1 := by
      intro hne
      apply hlevel
      rintro rfl
      exact hne (List.length_eq_zero_iff.1 hlength)
    have hcall := Derives.call (hlength ▸ hf) hlevel' hds
    rw [hargs'] at hcall
    refine ⟨.call f (args'.map Prod.snd), ?_⟩
    simpa using hcall

/-- A number may replace a signed number. -/
theorem Derives.contract (x : Float) (hp : IsSignedNumber p) (h : Derives n c (xs ++ (p ++ ys)) e)
    (hxs : OpenAfter xs) : ∃ e', Derives n c (xs ++ .number x :: ys) e' := by
  generalize hts : xs ++ (p ++ ys) = ts at h
  induction h generalizing xs ys with
  | single _ ih =>
    obtain ⟨e', h⟩ := ih hxs hts
    exact ⟨e', .single h⟩
  | @step n c ts us k op a b left hk right ihleft ihright =>
    rcases hp.left_or_right left hk.weight_eq hxs hts.symm with
      ⟨zs, rfl, rfl⟩ | ⟨zs, rfl, rfl⟩
    · obtain ⟨e', h⟩ := ihleft hxs rfl
      refine ⟨.binary op e' b, ?_⟩
      simpa using Derives.step h hk right
    · obtain ⟨e', h⟩ := ihright hxs.of_append_cons rfl
      refine ⟨.binary op a e', ?_⟩
      simpa using Derives.step left hk h
  | base _ ih =>
    obtain ⟨e', h⟩ := ih hxs hts
    exact ⟨e', .base h⟩
  | @power n ts us a b base exponent ihbase ihexponent =>
    rcases hp.left_or_right base rfl hxs hts.symm with ⟨zs, rfl, rfl⟩ | ⟨zs, rfl, rfl⟩
    · obtain ⟨e', h⟩ := ihbase hxs rfl
      refine ⟨.binary (.arithmetic .power) e' b, ?_⟩
      simpa using Derives.power h exponent
    · obtain ⟨e', h⟩ := ihexponent hxs.of_append_cons rfl
      refine ⟨.binary (.arithmetic .power) a e', ?_⟩
      simpa using Derives.power base h
  | unsigned _ ih =>
    obtain ⟨e', h⟩ := ih hxs hts
    exact ⟨e', .unsigned h⟩
  | @sign n ts k op e hk hd ih =>
    cases xs with
    | cons j xs =>
      obtain ⟨rfl, hrest⟩ := List.cons.inj hts
      obtain ⟨e', h⟩ := ih hxs.tail hrest
      exact ⟨.unary op e', .sign hk h⟩
    | nil =>
      cases hp with
      | bare hs =>
        cases hs with
        | plain y =>
          obtain ⟨rfl, -⟩ := List.cons.inj hts
          cases hk
        | minus y =>
          obtain ⟨-, rfl⟩ := List.cons.inj hts
          obtain rfl := eq_nil_of_number hd
          exact ⟨.number x, .unsigned (.number x)⟩
      | parens hs =>
        obtain ⟨rfl, -⟩ := List.cons.inj hts
        cases hk
  | @number n y =>
    cases xs with
    | cons j xs =>
      obtain ⟨k, zs, rfl, -⟩ := hp.exists_cons
      simp at hts
    | nil =>
      cases hp with
      | bare hs =>
        cases hs with
        | plain y =>
          obtain rfl : ys = [] := (List.cons.inj hts).2
          exact ⟨.number x, .number x⟩
        | minus y => cases hts
      | parens hs => cases hts
  | @constant n w e hw =>
    obtain ⟨k, zs, rfl, hname⟩ := hp.exists_cons
    cases xs with
    | cons j xs => simp at hts
    | nil => exact absurd (List.cons.inj hts).1 (hname w)
  | @parens n ts e hd ih =>
    cases xs with
    | cons j xs =>
      obtain ⟨rfl, hrest⟩ := List.cons.inj hts
      obtain ⟨zs, rfl, rfl⟩ := hp.before_close hd.balanced hrest.symm
      obtain ⟨e', h⟩ := ih hxs.tail rfl
      refine ⟨e', ?_⟩
      simpa using Derives.parens h
    | nil =>
      cases hp with
      | bare hs => cases hs <;> cases hts
      | parens hs =>
        obtain ⟨-, hrest⟩ := List.cons.inj hts
        rw [List.append_eq, List.append_assoc] at hrest
        obtain rfl := hs.eq_of_close hd.balanced hrest.symm
        exact ⟨.number x, .number x⟩
  | call hf hlevel hd ih =>
    exact contract_call hp hf hlevel hd (fun arg harg _ _ => ih arg harg) hxs hts

end Phrase

end Spreadsheet.Expression
