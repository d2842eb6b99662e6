import Spreadsheet.Expression.Parser

/-!
The grammar of expressions. Comparisons, sums and products are chains that group to the left, a power
has its base on the left and another power on the right, and a sign binds tighter than a power. The
number of a derivation says how many levels may be open inside it: a level is opened by the comparison
between parentheses and in an argument, by the right operand of a power and by the operand of a sign.
Operators, signs and the arguments of helpers are listed here by themselves, and the tables of the
parser agree with them.
-/
namespace Spreadsheet.Expression

/-- The chains that group to the left. -/
inductive Chain where
  | comparison
  | sum
  | product

inductive Category where
  | chain (c : Chain)
  | power
  | signed
  | primary

namespace Chain

/-- The token stands for the operator in the chain. -/
inductive Operator : Chain → Token → BinaryOperator → Prop
  | comparison (op : Comparison) : Operator .comparison (.comparison op) (.comparison op)
  | add : Operator .sum .plus (.arithmetic .add)
  | subtract : Operator .sum .minus (.arithmetic .subtract)
  | multiply : Operator .product .star (.arithmetic .multiply)
  | divide : Operator .product .slash (.arithmetic .divide)

/-- What the operators of a chain stand between. -/
def operand : Chain → Category
  | .comparison => .chain .sum
  | .sum => .chain .product
  | .product => .power

end Chain

/-- The token stands for the operator in front of an operand. -/
inductive Sign : Token → UnaryOperator → Prop
  | minus : Sign .minus .negate
  | plus : Sign .plus .plus

/-- The helper's name in small letters, and a number of arguments that it takes. -/
inductive Signature : Text → Helper → Nat → Prop
  | abs : Signature ['a', 'b', 's'] .abs 1
  | ceil : Signature ['c', 'e', 'i', 'l'] .ceil 1
  | floor : Signature ['f', 'l', 'o', 'o', 'r'] .floor 1
  | round : Signature ['r', 'o', 'u', 'n', 'd'] .round 1
  | max (n : Nat) : Signature ['m', 'a', 'x'] .max n
  | min (n : Nat) : Signature ['m', 'i', 'n'] .min n
  | pow : Signature ['p', 'o', 'w'] .pow 2
  | sqrt : Signature ['s', 'q', 'r', 't'] .sqrt 1
  | sin : Signature ['s', 'i', 'n'] .sin 1
  | cos : Signature ['c', 'o', 's'] .cos 1
  | tan : Signature ['t', 'a', 'n'] .tan 1

/-- What names stand for that are not called, in small letters. -/
def constants : List (Text × Expression) :=
  [(['t', 'r', 'u', 'e'], .boolean true), (['f', 'a', 'l', 's', 'e'], .boolean false),
    (['p', 'i'], .number pi), (['e'], .number euler)]

/-- The name of a constant or of a helper, in any case. -/
def IsKnownName (w : Text) : Prop :=
  w.map Char.toLower ∈ constants.map Prod.fst ∨
    ∃ f n, Signature (w.map Char.toLower) f n

/-- The tokens form the expression, with at most so many levels open at once inside. -/
inductive Derives : (levels : Nat) → Category → List Token → Expression → Prop
  | single {n : Nat} {c : Chain} {ts : List Token} {e : Expression}
      (h : Derives n c.operand ts e) : Derives n (.chain c) ts e
  | step {n : Nat} {c : Chain} {ts us : List Token} {k : Token} {op : BinaryOperator}
      {a b : Expression} (left : Derives n (.chain c) ts a) (hk : c.Operator k op)
      (right : Derives n c.operand us b) : Derives n (.chain c) (ts ++ k :: us) (.binary op a b)
  | base {n : Nat} {ts : List Token} {e : Expression} (h : Derives n .signed ts e) :
      Derives n .power ts e
  | power {n : Nat} {ts us : List Token} {a b : Expression} (base : Derives (n + 1) .signed ts a)
      (exponent : Derives n .power us b) :
      Derives (n + 1) .power (ts ++ .caret :: us) (.binary (.arithmetic .power) a b)
  | unsigned {n : Nat} {ts : List Token} {e : Expression} (h : Derives n .primary ts e) :
      Derives n .signed ts e
  | sign {n : Nat} {ts : List Token} {k : Token} {op : UnaryOperator} {e : Expression}
      (hk : Sign k op) (h : Derives n .signed ts e) :
      Derives (n + 1) .signed (k :: ts) (.unary op e)
  | number {n : Nat} (x : Float) : Derives n .primary [.number x] (.number x)
  | constant {n : Nat} {w : Text} {e : Expression} (h : (w.map Char.toLower, e) ∈ constants) :
      Derives n .primary [.identifier w] e
  | parens {n : Nat} {ts : List Token} {e : Expression}
      (h : Derives n (.chain .comparison) ts e) :
      Derives (n + 1) .primary (.leftParen :: (ts ++ [.rightParen])) e
  | call {n m : Nat} {w : Text} {f : Helper} {args : List (List Token × Expression)}
      (hf : Signature (w.map Char.toLower) f args.length)
      (hlevel : args ≠ [] → n = m + 1)
      (h : ∀ arg ∈ args, Derives m (.chain .comparison) arg.1 arg.2) :
      Derives n .primary
        (.identifier w :: .leftParen ::
          ([Token.comma].intercalate (args.map Prod.fst) ++ [.rightParen]))
        (.call f (args.map Prod.snd))

variable {n : Nat} {c : Category} {ts : List Token} {e : Expression} {w : Text} {k : Token}

section Tables

/-- The operators of a chain as the parser looks them up. -/
def Chain.operator? : Chain → Token → Option BinaryOperator
  | .comparison => Token.comparison?
  | .sum => Token.sum?
  | .product => Token.product?

theorem operator?_eq_some_iff {c : Chain} {op : BinaryOperator} :
    c.operator? k = some op ↔ c.Operator k op := by
  constructor
  · intro h
    cases c <;> cases k <;> cases h <;> constructor
  · intro h
    cases h <;> rfl

theorem sign?_eq_some_iff {op : UnaryOperator} : k.sign? = some op ↔ Sign k op := by
  constructor
  · intro h
    cases k <;> cases h <;> constructor
  · intro h
    cases h <;> rfl

theorem admits_exactly {m : Nat} : (Arity.exactly m).admits n = true ↔ n = m := by
  change (decide (m ≤ n) && decide (n ≤ m)) = true ↔ n = m
  rw [Bool.and_eq_true, decide_eq_true_iff, decide_eq_true_iff]
  omega

theorem admits_atLeast {m : Nat} : (Arity.atLeast m).admits n = true ↔ m ≤ n := by
  change (decide (m ≤ n) && true) = true ↔ m ≤ n
  rw [Bool.and_true, decide_eq_true_iff]

theorem signature_iff {f : Helper} :
    Signature w f n ↔ w = f.name.toList ∧ f.arity.admits n = true := by
  constructor
  · intro h
    cases h
    case max => exact ⟨by decide, admits_atLeast.2 n.zero_le⟩
    case min => exact ⟨by decide, admits_atLeast.2 n.zero_le⟩
    all_goals exact ⟨by decide, by decide⟩
  · rintro ⟨rfl, h⟩
    cases f
    case max => exact .max n
    case min => exact .min n
    all_goals
      obtain rfl := admits_exactly.1 h
      constructor

end Tables

section Names

theorem toUpper_eq_self_of_wide {c : Char} (h : ¬c.toNat < 128) : c.toUpper = c := by
  refine dif_neg fun hz => h ?_
  exact Nat.lt_of_le_of_lt (UInt32.le_iff_toNat_le.1 hz.2) (by decide)

theorem toLower_eq_self_of_wide {c : Char} (h : ¬c.toNat < 128) : c.toLower = c := by
  refine dif_neg fun hz => h ?_
  exact Nat.lt_of_le_of_lt (UInt32.le_iff_toNat_le.1 hz.2) (by decide)

theorem toLower_toUpper (c : Char) : c.toUpper.toLower = c.toLower := by
  by_cases h : c.toNat < 128
  · exact Text.of_toNat_lt (P := fun c => c.toUpper.toLower = c.toLower) (by decide) h
  · rw [toUpper_eq_self_of_wide h]

theorem toUpper_toLower (c : Char) : c.toLower.toUpper = c.toUpper := by
  by_cases h : c.toNat < 128
  · exact Text.of_toNat_lt (P := fun c => c.toLower.toUpper = c.toUpper) (by decide) h
  · rw [toLower_eq_self_of_wide h]

theorem map_toUpper_eq_iff {v : Text} :
    w.map Char.toUpper = v.map Char.toUpper ↔ w.map Char.toLower = v.map Char.toLower := by
  constructor
  · intro h
    have hlower := congrArg (List.map Char.toLower) h
    simpa [List.map_map, Function.comp_def, toLower_toUpper] using hlower
  · intro h
    have hupper := congrArg (List.map Char.toUpper) h
    simpa [List.map_map, Function.comp_def, toUpper_toLower] using hupper

theorem sameIgnoringCase_iff {v : Text} :
    Text.sameIgnoringCase w v = true ↔ w.map Char.toLower = v.map Char.toLower := beq_iff_eq

theorem ofName?_eq_some_iff {f : Helper} :
    Helper.ofName? w = some f ↔ w.map Char.toLower = f.name.toList := by
  unfold Helper.ofName?
  constructor
  · intro h
    have hfound := List.find?_some h
    exact (beq_iff_eq.1 hfound).symm
  · intro h
    rw [h]
    cases f <;> decide

/-- A name that is not called stands for a constant. -/
theorem named_eq_ok_iff : Parser.named w = .ok e ↔ (w.map Char.toLower, e) ∈ constants := by
  have hpi : w.map Char.toUpper = ['P', 'I'] ↔ w.map Char.toLower = ['p', 'i'] :=
    map_toUpper_eq_iff (v := ['p', 'i'])
  have heuler : w.map Char.toUpper = ['E'] ↔ w.map Char.toLower = ['e'] :=
    map_toUpper_eq_iff (v := ['e'])
  have htrue : Text.sameIgnoringCase w ['T', 'R', 'U', 'E'] = true ↔
      w.map Char.toLower = ['t', 'r', 'u', 'e'] := sameIgnoringCase_iff
  have hfalse : Text.sameIgnoringCase w ['F', 'A', 'L', 'S', 'E'] = true ↔
      w.map Char.toLower = ['f', 'a', 'l', 's', 'e'] := sameIgnoringCase_iff
  simp only [Parser.named, constant?, htrue, hfalse, hpi, heuler]
  generalize w.map Char.toLower = v
  by_cases h₁ : v = ['t', 'r', 'u', 'e']
  · simp [h₁, constants, eq_comm (a := e)]
  · by_cases h₂ : v = ['f', 'a', 'l', 's', 'e']
    · simp [h₂, constants, eq_comm (a := e)]
    · by_cases h₃ : v = ['p', 'i']
      · simp [h₃, constants, eq_comm (a := e)]
      · by_cases h₄ : v = ['e']
        · simp [h₄, constants, eq_comm (a := e)]
        · simp [h₁, h₂, h₃, h₄, constants]

end Names

section Tightness

/-- How tight the token binds to the phrase in front of it. -/
def Token.tightness : Token → Nat
  | .leftParen => 5
  | .caret => 4
  | .star | .slash => 3
  | .plus | .minus => 2
  | .comparison _ => 1
  | _ => 0

/-- The tightness from which on a token continues a phrase of the category. -/
def Category.tightness : Category → Nat
  | .chain .comparison => 1
  | .chain .sum => 2
  | .chain .product => 3
  | .power => 4
  | .signed | .primary => 5

theorem tightness_pos (c : Category) : 0 < c.tightness := by
  rcases c with c | _ | _ | _
  · cases c <;> decide
  all_goals decide

theorem tightness_operand (c : Chain) :
    c.operand.tightness = (Category.chain c).tightness + 1 := by cases c <;> rfl

theorem Chain.Operator.tightness_eq {c : Chain} {op : BinaryOperator} (h : c.Operator k op) :
    k.tightness = (Category.chain c).tightness := by
  cases h <;> rfl

theorem operator?_of_tightness_lt {c : Chain} (h : k.tightness < (Category.chain c).tightness) :
    c.operator? k = none := by
  cases hop : c.operator? k with
  | none => rfl
  | some op => exact absurd (operator?_eq_some_iff.1 hop).tightness_eq (Nat.ne_of_lt h)

end Tightness

/-- What holds of no token, and of two lists with a comma between them as it does of each, holds of
parts between commas. -/
theorem intercalate_comma {P : List Token → Prop} {tss : List (List Token)} (nil : P [])
    (comma : ∀ {us vs}, P us → P vs → P (us ++ .comma :: vs)) (h : ∀ us ∈ tss, P us) :
    P ([Token.comma].intercalate tss) := by
  match tss with
  | [] => exact nil
  | [us] => simpa using h
  | us :: vs :: tss =>
    obtain ⟨hus, htss⟩ := List.forall_mem_cons.1 h
    rw [List.intercalate_cons_cons, List.append_assoc]
    exact comma hus (intercalate_comma nil comma htss)

theorem exists_of_mem_intercalate {tss : List (List Token)}
    (h : k ∈ [Token.comma].intercalate tss) (hk : k ≠ .comma) : ∃ us ∈ tss, k ∈ us := by
  match tss with
  | [] => cases h
  | [us] => exact ⟨us, List.mem_singleton_self us, by simpa using h⟩
  | us :: vs :: tss =>
    rw [List.intercalate_cons_cons, List.mem_append, List.mem_append] at h
    rcases h with (h | h) | h
    · exact ⟨us, List.mem_cons_self, h⟩
    · exact absurd (List.mem_singleton.1 h) hk
    · obtain ⟨ws, hws, h⟩ := exists_of_mem_intercalate h hk
      exact ⟨ws, List.mem_cons_of_mem us hws, h⟩

theorem Derives.isKnownName (h : Derives n c ts e) (hw : .identifier w ∈ ts) : IsKnownName w := by
  induction h with
  | single _ ih => exact ih hw
  | @step n c ts us k op a b _ hk _ ihleft ihright =>
    rcases List.mem_append.1 hw with hw | hw
    · exact ihleft hw
    · rcases List.mem_cons.1 hw with rfl | hw
      · cases hk
      · exact ihright hw
  | base _ ih => exact ih hw
  | power _ _ ihbase ihexponent =>
    rcases List.mem_append.1 hw with hw | hw
    · exact ihbase hw
    · rcases List.mem_cons.1 hw with h | hw
      · cases h
      · exact ihexponent hw
  | unsigned _ ih => exact ih hw
  | sign hk _ ih =>
    rcases List.mem_cons.1 hw with rfl | hw
    · cases hk
    · exact ih hw
  | number x => simp at hw
  | constant h =>
    obtain rfl : w = _ := by simpa using hw
    exact .inl (List.mem_map_of_mem h)
  | parens _ ih =>
    rcases List.mem_cons.1 hw with h | hw
    · cases h
    · rcases List.mem_append.1 hw with hw | hw
      · exact ih hw
      · simp at hw
  | @call n m w' f args hname hlevel h ih =>
    rcases List.mem_cons.1 hw with h | hw
    · cases h
      exact .inr ⟨f, _, hname⟩
    · rcases List.mem_cons.1 hw with h | hw
      · cases h
      · rcases List.mem_append.1 hw with hw | hw
        · obtain ⟨us, hus, hw⟩ := exists_of_mem_intercalate hw (by simp)
          obtain ⟨arg, harg, rfl⟩ := List.mem_map.1 hus
          exact ih arg harg hw
        · simp at hw

/-- A derivation has a first token, which no closing parenthesis is. -/
theorem Derives.exists_cons (h : Derives n c ts e) :
    ∃ k us, ts = k :: us ∧ k ≠ .rightParen := by
  induction h with
  | single _ ih => exact ih
  | step _ _ _ ih _ =>
    obtain ⟨k, us, rfl, hk⟩ := ih
    exact ⟨k, _, rfl, hk⟩
  | base _ ih => exact ih
  | power _ _ ih _ =>
    obtain ⟨k, us, rfl, hk⟩ := ih
    exact ⟨k, _, rfl, hk⟩
  | unsigned _ ih => exact ih
  | @sign n ts k op e hk _ _ =>
    refine ⟨k, ts, rfl, ?_⟩
    rintro rfl
    cases hk
  | number x => exact ⟨_, _, rfl, by simp⟩
  | constant _ => exact ⟨_, _, rfl, by simp⟩
  | parens _ _ => exact ⟨_, _, rfl, by simp⟩
  | call _ _ _ _ => exact ⟨_, _, rfl, by simp⟩

end Spreadsheet.Expression
