import Mathlib.Data.List.Chain
import Mathlib.Data.List.Forall2
import Spreadsheet.Expression.Value
import Spreadsheet.Proofs.Expression.Parser

/-!
Operands inside expressions. Numbers and names never stand side by side, and tokens form one
expression at most. A signed phrase may take the place of a number: the tokens still form an
expression, which is the one before but for what the phrase stands for.
-/
namespace Spreadsheet.Expression

open Spreadsheet.Expression.Parser

variable {n m n' : Nat} {c : Category} {k : Token} {ts us : List Token} {e e' : Expression}

theorem Derives.mono (h : Derives n c ts e) (hle : n ≤ m) : Derives m c ts e := by
  induction h generalizing m with
  | single _ ih => exact .single (ih hle)
  | step _ hk _ ihleft ihright => exact .step (ihleft hle) hk (ihright hle)
  | base _ ih => exact .base (ih hle)
  | power _ _ ihbase ihexponent =>
    obtain ⟨m, rfl⟩ := Nat.exists_eq_add_of_le' (Nat.le_of_add_left_le hle)
    exact .power (ihbase hle) (ihexponent (Nat.le_of_succ_le_succ hle))
  | unsigned _ ih => exact .unsigned (ih hle)
  | sign hk _ ih =>
    obtain ⟨m, rfl⟩ := Nat.exists_eq_add_of_le' (Nat.le_of_add_left_le hle)
    exact .sign hk (ih (Nat.le_of_succ_le_succ hle))
  | number x => exact .number x
  | constant h => exact .constant h
  | parens _ ih =>
    obtain ⟨m, rfl⟩ := Nat.exists_eq_add_of_le' (Nat.le_of_add_left_le hle)
    exact .parens (ih (Nat.le_of_succ_le_succ hle))
  | @call n l w f args hf hlevel _ ih =>
    refine .call hf (m := m - 1) (fun hne => ?_) fun arg harg => ih arg harg ?_
    · have hn := hlevel hne
      omega
    · have hn := hlevel (List.ne_nil_of_mem harg)
      omega

/-- Tokens form one expression at most. -/
theorem Derives.unique (h : Derives n c ts e) (h' : Derives n' c ts e') : e = e' := by
  have hrest : (next []).tightness < c.tightness := tightness_pos c
  have hread := (readable h (Nat.le_refl _)).outcome (Nat.le_refl _) (max n n') hrest
  have hread' := (readable h' (Nat.le_refl _)).outcome (Nat.le_refl _) (max n n') hrest
  have hok := hread.resolve_right fun hdeep => absurd hdeep.1 (by omega)
  have hok' := hread'.resolve_right fun hdeep => absurd hdeep.1 (by omega)
  rw [hok] at hok'
  exact congrArg Prod.fst (Except.ok.inj hok')

section Apart

def isOperand : Token → Bool
  | .number _ | .identifier _ => true
  | _ => false

/-- One of two neighbours is no operand. -/
def Apart (j k : Token) : Prop := isOperand j = false ∨ isOperand k = false

theorem isChain_append_cons (hts : ts.IsChain Apart) (hk : isOperand k = false)
    (hus : us.IsChain Apart) : (ts ++ k :: us).IsChain Apart := by
  refine List.isChain_append.2 ⟨hts, List.isChain_cons.2 ⟨fun _ _ => .inl hk, hus⟩, ?_⟩
  intro j _ k' hk'
  obtain rfl := Option.some.inj hk'
  exact .inr hk

theorem Derives.isChain (h : Derives n c ts e) : ts.IsChain Apart := by
  induction h with
  | single _ ih => exact ih
  | @step n c ts us k op a b _ hk _ ihleft ihright =>
    refine isChain_append_cons ihleft ?_ ihright
    cases hk <;> rfl
  | base _ ih => exact ih
  | power _ _ ihbase ihexponent => exact isChain_append_cons ihbase rfl ihexponent
  | unsigned _ ih => exact ih
  | @sign n ts k op e hk _ ih =>
    refine isChain_append_cons .nil ?_ ih
    cases hk <;> rfl
  | number x => exact .singleton _
  | constant _ => exact .singleton _
  | parens _ ih => exact isChain_append_cons .nil rfl (isChain_append_cons ih rfl .nil)
  | @call n m w f args _ _ _ ih =>
    have hargs : ([Token.comma].intercalate (args.map Prod.fst)).IsChain Apart :=
      intercalate_comma .nil (fun hus hvs => isChain_append_cons hus rfl hvs)
        (List.forall_mem_map.2 ih)
    exact isChain_append_cons (.singleton _) rfl (isChain_append_cons hargs rfl .nil)

end Apart

section Replace

/-- What holds between expressions of the same shape if it holds between their parts. -/
structure Congruence (r : Expression → Expression → Prop) : Prop where
  refl (e : Expression) : r e e
  unary (op : UnaryOperator) {a b : Expression} (h : r a b) : r (.unary op a) (.unary op b)
  binary (op : BinaryOperator) {a b a' b' : Expression} (hleft : r a a') (hright : r b b') :
    r (.binary op a b) (.binary op a' b')
  call (f : Helper) {as bs : List Expression} (h : List.Forall₂ r as bs) :
    r (.call f as) (.call f bs)

theorem congruence_true : Congruence fun _ _ => True where
  refl _ := trivial
  unary _ _ _ _ := trivial
  binary _ _ _ _ _ _ _ := trivial
  call _ _ _ _ := trivial

theorem congruence_value : Congruence fun a b => a.value = b.value where
  refl _ := rfl
  unary op _ _ h := by simp only [value, h]
  binary op _ _ _ _ hleft hright := by simp only [value, hleft, hright]
  call f as bs h := by
    have hvalues : values as = values bs := by
      induction h with
      | nil => rfl
      | cons hab _ ih => simp only [values, hab, ih]
    simp only [value, hvalues]

/-- The phrase stands for the token: it is the token itself, or a signed phrase for a number. -/
def StandsFor (m : Nat) (r : Expression → Expression → Prop) (k : Token) (ts : List Token) : Prop :=
  ts = [k] ∨ ∃ x e, k = .number x ∧ Derives m .signed ts e ∧ r (.number x) e

/-- Where a phrase belongs that stands for an operand. -/
def Category.loosened : Category → Category
  | .primary => .signed
  | c => c

theorem loosened_operand (c : Chain) : c.operand.loosened = c.operand := by
  cases c <;> rfl

variable {α : Type} {f : α → Token} {g : α → List Token} {r : Expression → Expression → Prop}
  {as : List α}

/-- A token that is no number is left as it is, and so the phrases part where the tokens do. -/
theorem exists_parts (hmap : as.map f = ts ++ k :: us)
    (hstands : ∀ a ∈ as, StandsFor m r (f a) (g a)) (hk : ∀ x, k ≠ .number x) :
    ∃ bs cs : List α, as.flatMap g = bs.flatMap g ++ k :: cs.flatMap g ∧
      (bs.map f = ts ∧ ∀ a ∈ bs, StandsFor m r (f a) (g a)) ∧
      (cs.map f = us ∧ ∀ a ∈ cs, StandsFor m r (f a) (g a)) := by
  obtain ⟨bs, ds, rfl, hbs, hds⟩ := List.map_eq_append_iff.1 hmap
  obtain ⟨a, cs, rfl, ha, hcs⟩ := List.map_eq_cons_iff.1 hds
  rw [List.forall_mem_append, List.forall_mem_cons] at hstands
  obtain ⟨hbsStands, haStands, hcsStands⟩ := hstands
  rw [ha] at haStands
  have hsame : g a = [k] := haStands.resolve_right fun ⟨x, _, hx, _⟩ => hk x hx
  refine ⟨bs, cs, ?_, ⟨hbs, hbsStands⟩, ⟨hcs, hcsStands⟩⟩
  rw [List.flatMap_append, List.flatMap_cons, hsame, List.singleton_append]

theorem exists_tail (hmap : as.map f = k :: us) (hstands : ∀ a ∈ as, StandsFor m r (f a) (g a))
    (hk : ∀ x, k ≠ .number x) :
    ∃ cs : List α, as.flatMap g = k :: cs.flatMap g ∧ cs.map f = us ∧
      ∀ a ∈ cs, StandsFor m r (f a) (g a) := by
  rw [← List.nil_append (k :: us)] at hmap
  obtain ⟨bs, cs, hflat, ⟨hbs, -⟩, hcs, hcsStands⟩ := exists_parts hmap hstands hk
  obtain rfl := List.map_eq_nil_iff.1 hbs
  exact ⟨cs, hflat, hcs, hcsStands⟩

theorem replace_arguments {args : List (List Token × Expression)}
    (hmap : as.map f = [Token.comma].intercalate (args.map Prod.fst))
    (hstands : ∀ a ∈ as, StandsFor m r (f a) (g a))
    (hargs : ∀ arg ∈ args, ∀ bs : List α, bs.map f = arg.1 →
      (∀ a ∈ bs, StandsFor m r (f a) (g a)) →
      ∃ e, Derives n (.chain .comparison) (bs.flatMap g) e ∧ r arg.2 e) :
    ∃ args' : List (List Token × Expression),
      as.flatMap g = [Token.comma].intercalate (args'.map Prod.fst) ∧
      List.Forall₂ r (args.map Prod.snd) (args'.map Prod.snd) ∧
      ∀ arg ∈ args', Derives n (.chain .comparison) arg.1 arg.2 := by
  induction args generalizing as with
  | nil =>
    obtain rfl : as = [] := List.map_eq_nil_iff.1 hmap
    exact ⟨[], rfl, .nil, by simp⟩
  | cons arg args ih =>
    obtain ⟨harg, hargs⟩ := List.forall_mem_cons.1 hargs
    cases args with
    | nil =>
      obtain ⟨e, hd, hr⟩ := harg as (by simpa using hmap) hstands
      exact ⟨[(as.flatMap g, e)], by simp, .cons hr .nil, by simpa using hd⟩
    | cons arg' args =>
      rw [List.map_cons, List.map_cons, List.intercalate_cons_cons, List.append_assoc] at hmap
      obtain ⟨bs, cs, hflat, ⟨hbs, hbsStands⟩, hcs, hcsStands⟩ :=
        exists_parts hmap hstands (by simp)
      obtain ⟨e, hd, hr⟩ := harg bs hbs hbsStands
      obtain ⟨args', hrest, hall, hds⟩ := ih hcs hcsStands hargs
      cases args' with
      | nil => cases hall
      | cons b args' =>
        refine ⟨(bs.flatMap g, e) :: b :: args', ?_, .cons hr hall, List.forall_mem_cons.2 ⟨hd, hds⟩⟩
        rw [hflat, hrest, List.map_cons, List.map_cons, List.map_cons, List.intercalate_cons_cons,
          List.append_assoc, List.singleton_append]

/-- Phrases take the places of numbers. -/
theorem Derives.replace (hr : Congruence r) (h : Derives n c (as.map f) e)
    (hstands : ∀ a ∈ as, StandsFor m r (f a) (g a)) :
    ∃ e', Derives (n + m) c.loosened (as.flatMap g) e' ∧ r e e' := by
  generalize hmap : as.map f = ts at h
  induction h generalizing as with
  | @single n c ts e _ ih =>
    obtain ⟨e', hd, he⟩ := ih hstands hmap
    rw [loosened_operand] at hd
    exact ⟨e', .single hd, he⟩
  | @step n c ts us k op a b _ hk _ ihleft ihright =>
    have hnumber : ∀ x, k ≠ .number x := by
      rintro x rfl
      cases hk
    obtain ⟨bs, cs, hflat, ⟨hbs, hbsStands⟩, hcs, hcsStands⟩ := exists_parts hmap hstands hnumber
    obtain ⟨a', hda, hra⟩ := ihleft hbsStands hbs
    obtain ⟨b', hdb, hrb⟩ := ihright hcsStands hcs
    rw [loosened_operand] at hdb
    rw [hflat]
    exact ⟨_, .step hda hk hdb, hr.binary op hra hrb⟩
  | base _ ih =>
    obtain ⟨e', hd, he⟩ := ih hstands hmap
    exact ⟨e', .base hd, he⟩
  | @power n ts us a b _ _ ihbase ihexponent =>
    obtain ⟨bs, cs, hflat, ⟨hbs, hbsStands⟩, hcs, hcsStands⟩ :=
      exists_parts hmap hstands (by simp)
    obtain ⟨a', hda, hra⟩ := ihbase hbsStands hbs
    obtain ⟨b', hdb, hrb⟩ := ihexponent hcsStands hcs
    rw [Nat.add_right_comm] at hda ⊢
    rw [hflat]
    exact ⟨_, .power hda hdb, hr.binary _ hra hrb⟩
  | unsigned _ ih => exact ih hstands hmap
  | @sign n ts k op e hk _ ih =>
    have hnumber : ∀ x, k ≠ .number x := by
      rintro x rfl
      cases hk
    obtain ⟨cs, hflat, hcs, hcsStands⟩ := exists_tail hmap hstands hnumber
    obtain ⟨e', hd, he⟩ := ih hcsStands hcs
    rw [hflat, Nat.add_right_comm]
    exact ⟨_, .sign hk hd, hr.unary op he⟩
  | @number n x =>
    obtain ⟨y, bs, rfl, hy, hbs⟩ := List.map_eq_cons_iff.1 hmap
    obtain rfl := List.map_eq_nil_iff.1 hbs
    have hyStands := hstands y List.mem_cons_self
    rw [hy] at hyStands
    rw [List.flatMap_singleton]
    rcases hyStands with hsame | ⟨x', e', hx, hd, he⟩
    · rw [hsame]
      exact ⟨_, .unsigned (.number x), hr.refl _⟩
    · cases hx
      exact ⟨e', hd.mono (Nat.le_add_left _ _), he⟩
  | @constant n w e hw =>
    obtain ⟨cs, hflat, hcs, -⟩ := exists_tail hmap hstands (by simp)
    obtain rfl := List.map_eq_nil_iff.1 hcs
    rw [hflat]
    exact ⟨_, .unsigned (.constant hw), hr.refl _⟩
  | @parens n ts e _ ih =>
    obtain ⟨as, hflat, htail, hstands⟩ := exists_tail hmap hstands (by simp)
    obtain ⟨bs, cs, hflat', ⟨hbs, hbsStands⟩, hcs, -⟩ := exists_parts htail hstands (by simp)
    obtain rfl := List.map_eq_nil_iff.1 hcs
    obtain ⟨e', hd, he⟩ := ih hbsStands hbs
    rw [hflat, hflat', Nat.add_right_comm]
    exact ⟨e', .unsigned (.parens hd), he⟩
  | @call n l w f args hf hlevel _ ih =>
    obtain ⟨as, hflat, htail, hstands⟩ := exists_tail hmap hstands (by simp)
    obtain ⟨as, hflat', htail, hstands⟩ := exists_tail htail hstands (by simp)
    obtain ⟨bs, cs, hflat'', ⟨hbs, hbsStands⟩, hcs, -⟩ := exists_parts htail hstands (by simp)
    obtain rfl := List.map_eq_nil_iff.1 hcs
    obtain ⟨args', hargs, hall, hds⟩ := replace_arguments hbs hbsStands
      fun arg harg ds hds hdsStands => ih arg harg hdsStands hds
    have hlength : args.length = args'.length := by simpa using hall.length_eq
    rw [hflat, hflat', hflat'', hargs]
    refine ⟨_, .unsigned (.call (hlength ▸ hf) (fun hne => ?_) hds), hr.call f hall⟩
    have hn := hlevel fun hnil => hne (by simpa [hnil] using hlength.symm)
    omega

end Replace

end Spreadsheet.Expression
