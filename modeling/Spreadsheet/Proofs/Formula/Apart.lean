import Spreadsheet.Formula.Evaluate
import Spreadsheet.Proofs.Formula.Call
import Spreadsheet.Proofs.Formula.Scan

/-!
Calls that keep clear of what stands around them. When a call gives way to a literal, the literal
must not join its neighbours to a reference that the text did not have. It cannot if no dollar sign
stands before the call and no letter, digit or dollar sign behind it. Main statement: with all calls
of a text apart, the text with its calls expanded has no token but those of the text.
-/
namespace Spreadsheet.Formula

open Text

variable {s t u w x y name inner args rest : Text} {c : Char} {q : Bool} {before : Option Char}

/-- Whether the library call that begins here, if one does, keeps clear of its neighbours. -/
def callApart (before : Option Char) (t : Text) : Bool :=
  match splitName? t with
  | some (name, inner) =>
    if LibraryFunction.isKnown name then
      match splitCall? inner with
      | some (_, rest) =>
        before.all (· != '$') && rest.head?.all fun c => !(c.isAlphanum || c == '$')
      | none => true
    else true
  | none => true

def callsApartFrom (before : Option Char) (quoted : Bool) : Text → Bool
  | [] => true
  | c :: r =>
    (quoted || before.any isWord || callApart before (c :: r)) &&
      callsApartFrom (some c) (if c = '"' then !quoted else quoted) r

/-- Whether no library call outside string literals stands right behind a dollar sign, or right
before a letter, a digit or a dollar sign. -/
def callsApart (t : Text) : Bool := callsApartFrom none false t

theorem callApart_of_closed (hname : splitName? t = some (name, inner))
    (hknown : LibraryFunction.isKnown name = true) (hcall : splitCall? inner = some (args, rest)) :
    callApart before t = true ↔ (∀ c ∈ before, c ≠ '$') ∧
      ∀ c ∈ rest.head?, c.isAlphanum = false ∧ c ≠ '$' := by
  cases before <;> cases rest <;> simp [callApart, hname, hknown, hcall]

theorem callApart_of_append (hw : callApart before (t ++ w) = true)
    {before' : Option Char} (hb : before' = none ∨ before' = before) :
    callApart before' t = true := by
  cases hname : splitName? t with
  | none => simp [callApart, hname]
  | some p =>
    obtain ⟨name, inner⟩ := p
    by_cases hknown : LibraryFunction.isKnown name = true
    · cases hcall : splitCall? inner with
      | none => simp [callApart, hname, hknown, hcall]
      | some r =>
        obtain ⟨args, rest⟩ := r
        have hcall' : splitCall? (inner ++ w) = some (args, rest ++ w) :=
          splitClosing?_append_right hcall w
        rw [callApart_of_closed (splitName?_append_right hname w) hknown hcall'] at hw
        rw [callApart_of_closed hname hknown hcall]
        refine ⟨fun c hc => ?_, fun c hc => ?_⟩
        · rcases hb with rfl | rfl
          · cases hc
          · exact hw.1 c hc
        · refine hw.2 c ?_
          rw [List.head?_append, Option.mem_def.1 hc]
          rfl
    · simp [callApart, hname, hknown]

theorem callsApartFrom_append (h : callsApartFrom before q (x ++ y) = true) :
    callsApartFrom (x.getLast?.or before) (quotedAfter q x) y = true := by
  induction x generalizing before q with
  | nil => exact h
  | cons c x ih =>
    rw [List.cons_append, callsApartFrom, Bool.and_eq_true] at h
    rw [getLast?_cons_or, quotedAfter_cons]
    exact ih h.2

theorem callsApartFrom_iff : callsApartFrom before q t = true ↔ ∀ x c r, t = x ++ c :: r →
    quotedAfter q x = false → (x.getLast?.or before).any isWord = false →
      callApart (x.getLast?.or before) (c :: r) = true := by
  constructor
  · rintro h x c r rfl hq hword
    have h' := callsApartFrom_append h
    rw [callsApartFrom, hq, hword, Bool.and_eq_true] at h'
    simpa using h'.1
  · intro h
    induction t generalizing before q with
    | nil => rfl
    | cons c t ih =>
      rw [callsApartFrom, Bool.and_eq_true]
      constructor
      · cases q with
        | true => rfl
        | false =>
          cases hword : before.any isWord with
          | true => simp
          | false => simpa using h [] c t rfl rfl hword
      · refine ih fun x d r ht hq hword => ?_
        rw [← getLast?_cons_or] at hword ⊢
        exact h (c :: x) d r (by rw [ht]; rfl) hq hword

theorem callsApart_of_part (h : Part s t) (ht : callsApart t = true) : callsApart s = true := by
  obtain ⟨a, b, rfl, hqa, ha, -⟩ := h
  refine callsApartFrom_iff.2 fun x c r hs hq hword => ?_
  have hsplit : a ++ s ++ b = (a ++ x) ++ c :: (r ++ b) := by simp [hs]
  have hq' : quotedAfter false (a ++ x) = false := by rw [quotedAfter_append, hqa, hq]
  have hlast : (a ++ x).getLast?.or none = (x.getLast?.or none).or a.getLast? := by
    rw [List.getLast?_append, Option.or_none, Option.or_none]
  have hword' : ((a ++ x).getLast?.or none).any isWord = false := by
    rw [hlast]
    cases hx : x.getLast? with
    | some d =>
      rw [hx] at hword
      exact hword
    | none =>
      cases hl : a.getLast? with
      | none => rfl
      | some d => exact (isEdge_iff.1 (ha d hl)).1
  have happ := callsApartFrom_iff.1 ht _ c _ hsplit hq' hword'
  refine callApart_of_append (w := b) happ ?_
  rw [hlast]
  cases x.getLast? with
  | none => exact .inl rfl
  | some d => exact .inr rfl

section Expansion

variable {lit : Text} {ss : List Segment} {p : Text} {k : Token}

/-- A text that can take the place of a call: of capitals alone, or with none and no dollar sign. -/
def IsLiteral (lit : Text) : Prop :=
  (∀ c ∈ lit, c.isUpper = false ∧ c ≠ '$' ∧ c ≠ '"') ∨ ∀ c ∈ lit, c.isUpper = true

/-- The text is what the segments give when literals take the place of calls. -/
inductive Expands : List Segment → Text → Prop
  | nil : Expands [] []
  | plain {c : Char} {ss : List Segment} {u : Text} (h : Expands ss u) :
    Expands (.plain c :: ss) (c :: u)
  | call {name args lit : Text} {ss : List Segment} {u : Text} (hlit : IsLiteral lit)
    (h : Expands ss u) : Expands (.call name args :: ss) (lit ++ u)

theorem splitAnchor_of_head (h : ∀ c ∈ t.head?, c ≠ '$') :
    Reference.splitAnchor t = (false, t) := by
  unfold Reference.splitAnchor
  split
  · exact absurd rfl (h '$' rfl)
  · rfl

theorem splitWhile_of_head {p : Char → Bool} (h : ∀ c ∈ t.head?, p c = false) :
    splitWhile p t = ([], t) := by
  cases t with
  | nil => rfl
  | cons c r =>
    have hc : ¬p c = true := Bool.eq_false_iff.1 (h c rfl)
    rw [splitWhile, List.takeWhile_cons_of_neg hc, List.dropWhile_cons_of_neg hc]

theorem splitReference?_of_head (h : ∀ c ∈ t.head?, c.isUpper = false ∧ c ≠ '$') :
    splitReference? t = none := by
  simp [splitReference?, splitAnchor_of_head fun c hc => (h c hc).2,
    splitWhile_of_head fun c hc => (h c hc).1]

theorem not_isRefChar_iff : isRefChar c = false ↔
    c.isUpper = false ∧ c.isDigit = false ∧ c ≠ '$' := by
  simp [isRefChar, and_assoc]

/-- Capitals with nothing of a reference behind them begin no reference. -/
theorem splitReference?_of_capitals (hx : ∀ c ∈ x, c.isUpper = true)
    (hw : ∀ c ∈ w.head?, isRefChar c = false) : splitReference? (x ++ w) = none := by
  have hdollar : ∀ c ∈ w.head?, c ≠ '$' := fun c hc => (not_isRefChar_iff.1 (hw c hc)).2.2
  have hletters : splitWhile Char.isUpper (x ++ w) = (x, w) := by
    have hup : splitWhile Char.isUpper w = ([], w) :=
      splitWhile_of_head fun c hc => (not_isRefChar_iff.1 (hw c hc)).1
    obtain ⟨h₁, h₂⟩ := Prod.mk.inj hup
    rw [splitWhile, List.takeWhile_append_of_pos hx, List.dropWhile_append_of_pos hx, h₁, h₂,
      List.append_nil]
  have hdigits : splitWhile Char.isDigit w = ([], w) :=
    splitWhile_of_head fun c hc => (not_isRefChar_iff.1 (hw c hc)).2.1
  have hanchor : Reference.splitAnchor (x ++ w) = (false, x ++ w) := by
    refine splitAnchor_of_head fun c hc => ?_
    rw [List.head?_append, Option.mem_def, Option.or_eq_some_iff] at hc
    rcases hc with hc | ⟨-, hc⟩
    · rintro rfl
      exact absurd (hx _ (List.mem_of_mem_head? hc)) (by decide)
    · exact hdollar c hc
  simp [splitReference?, hanchor, hletters, splitAnchor_of_head hdollar, hdigits]

theorem candidate_eq_none (h : splitReference? t = none) : Candidate.read? t = none := by
  rw [Candidate.read?, h]
  rfl

/-- A text within which no reference begins is scanned character by character. -/
theorem scanFrom_of_inert (before : Option Char) (hq : '"' ∉ x)
    (h : ∀ y c z, x = y ++ c :: z → splitReference? (c :: z ++ w) = none) :
    scanFrom before false (x ++ w) =
      x.map .plain ++ scanFrom (x.getLast?.or before) false w := by
  induction x generalizing before with
  | nil => rfl
  | cons c x ih =>
    rw [List.mem_cons, not_or] at hq
    have hk : Candidate.read? (c :: (x ++ w)) = none := candidate_eq_none (h [] c x rfl)
    rw [List.cons_append, scanFrom_of_none before (Ne.symm hq.1) hk, getLast?_cons_or,
      ih (some c) hq.2 fun y d z hx => h (c :: y) d z (by rw [hx]; rfl)]
    rfl

/-- No reference begins within a literal with nothing of a reference behind it. -/
theorem IsLiteral.splitReference? (h : IsLiteral lit) (hw : ∀ c ∈ w.head?, isRefChar c = false) :
    '"' ∉ lit ∧ ∀ y z, lit = y ++ z → splitReference? (z ++ w) = none := by
  rcases h with h | h
  · refine ⟨fun hq => (h _ hq).2.2 rfl, fun y z hz => splitReference?_of_head fun c hc => ?_⟩
    cases z with
    | nil =>
      obtain ⟨hup, -, hd⟩ := not_isRefChar_iff.1 (hw c hc)
      exact ⟨hup, hd⟩
    | cons d z =>
      obtain rfl := Option.some.inj hc
      have hd := h d (by simp [hz])
      exact ⟨hd.1, hd.2.1⟩
  · refine ⟨fun hq => absurd (h _ hq) (by decide), fun y z hz => ?_⟩
    refine splitReference?_of_capitals (fun c hc => h c ?_) hw
    rw [hz]
    exact List.mem_append_right y hc

theorem scanFrom_literal (before : Option Char) (h : IsLiteral lit)
    (hw : ∀ c ∈ w.head?, isRefChar c = false) : scanFrom before false (lit ++ w) =
      lit.map .plain ++ scanFrom (lit.getLast?.or before) false w := by
  obtain ⟨hq, hno⟩ := h.splitReference? hw
  exact scanFrom_of_inert before hq fun y c z hy => hno y (c :: z) hy

/-- What cannot begin a token is scanned alike after every character. -/
theorem scanFrom_of_head {before' : Option Char} (h : ∀ c ∈ t.head?, isRefChar c = false) :
    scanFrom before false t = scanFrom before' false t := by
  cases t with
  | nil => rw [scanFrom, scanFrom]
  | cons c r =>
    by_cases hc : c = '"'
    · subst c
      rw [scanFrom_quote, scanFrom_quote]
    · obtain ⟨hup, -, hd⟩ := not_isRefChar_iff.1 (h c rfl)
      have hk : Candidate.read? (c :: r) = none := candidate_eq_none <|
        splitReference?_of_head fun d hd' => by
          obtain rfl := Option.some.inj hd'
          exact ⟨hup, hd⟩
      rw [scanFrom_of_none _ hc hk, scanFrom_of_none _ hc hk]

theorem toUpper_of_capital_or_digit (h : (c.isUpper || c.isDigit) = true) : c.toUpper = c := by
  refine dif_neg fun ha => ?_
  have hlower : 97 ≤ c.val.toNat := UInt32.le_iff_toNat_le.1 ha.1
  rcases Bool.or_eq_true_iff.1 h with h | h
  · have hZ : c.val.toNat ≤ 90 := UInt32.le_iff_toNat_le.1 (of_decide_eq_true h).2
    omega
  · have h9 : c.val.toNat ≤ 57 := UInt32.le_iff_toNat_le.1
      (of_decide_eq_true (Bool.and_eq_true_iff.1 h).2)
    omega

theorem exists_name_of_isKnown (hname : ∀ c ∈ name, (c.isUpper || c.isDigit) = true)
    (h : LibraryFunction.isKnown name = true) :
    ∃ f : LibraryFunction, name = f.name.toList := by
  obtain ⟨f, hf⟩ := Option.isSome_iff_exists.1 h
  have hupper : name.map Char.toUpper = name :=
    (List.map_congr_left fun c hc => toUpper_of_capital_or_digit (hname c hc)).trans
      (List.map_id' name)
  have hfname := List.find?_some hf
  rw [hupper, beq_iff_eq] at hfname
  exact ⟨f, hfname.symm⟩

theorem isUpper_of_mem_name (f : LibraryFunction) : ∀ c ∈ f.name.toList, c.isUpper = true := by
  rw [← List.all_eq_true]
  cases f <;> decide

theorem isUpper_of_isKnown (hname : ∀ c ∈ name, (c.isUpper || c.isDigit) = true)
    (h : LibraryFunction.isKnown name = true) : ∀ c ∈ name, c.isUpper = true := by
  obtain ⟨f, rfl⟩ := exists_name_of_isKnown hname h
  exact isUpper_of_mem_name f

theorem splitReference?_of_call (hname : splitName? t = some (name, inner))
    (hknown : LibraryFunction.isKnown name = true) : splitReference? t = none := by
  obtain ⟨rfl, hall, -⟩ := splitName?_eq_some_iff.1 hname
  refine splitReference?_of_capitals (isUpper_of_isKnown hall hknown) fun c hc => ?_
  obtain rfl := Option.some.inj hc
  decide

theorem exists_segmentsFrom_of_head {known : Text → Bool} (hc : c.isUpper = false) (r : Text) :
    ∃ ss, segmentsFrom known before q (c :: r) = .plain c :: ss := by
  have hname : splitName? (c :: r) = none := by simp [splitName?, hc]
  rw [segmentsFrom]
  split
  · exact ⟨_, rfl⟩
  · split
    · exact ⟨_, rfl⟩
    · split
      · exact ⟨_, rfl⟩
      · simp_all

/-- An expansion begins as its text does, unless the text begins with a call. -/
theorem head?_of_expands {known : Text → Bool} (h : Expands (segmentsFrom known before q t) u)
    (ht : ∀ c ∈ t.head?, c.isUpper = false) : u.head? = t.head? := by
  cases t with
  | nil =>
    rw [segmentsFrom] at h
    cases h
    rfl
  | cons c r =>
    obtain ⟨ss, hss⟩ : ∃ ss, segmentsFrom known before q (c :: r) = .plain c :: ss :=
      exists_segmentsFrom_of_head (ht c rfl) r
    rw [hss] at h
    cases h
    rfl

/-- Behind any text that leads up to them, `u` has the token `k` only if `t` has it. -/
def NoNewToken (k : Token) (before : Option Char) (q : Bool) (t u : Text) : Prop :=
  ∀ before₀ p s, before = p.getLast?.or before₀ → q = quotedAfter false p →
    .token s k ∈ scanFrom before₀ false (p ++ u) →
    ∃ s, .token s k ∈ scanFrom before₀ false (p ++ t)

theorem NoNewToken.cons {q' : Bool} (hc : (if c = '"' then !q else q) = q')
    (h : NoNewToken k (some c) q' t u) : NoNewToken k before q (c :: t) (c :: u) := by
  intro before₀ p s hbefore hq hs
  have hlast : some c = (p ++ [c]).getLast?.or before₀ := by
    rw [List.getLast?_concat, Option.some_or]
  have hquoted : q' = quotedAfter false (p ++ [c]) := by
    rw [quotedAfter_append, ← hq, ← hc]
    rfl
  rw [List.append_cons] at hs ⊢
  exact h before₀ (p ++ [c]) s hlast hquoted hs

/-- A call gives way to a literal: what is scanned before and behind it stays as it was. -/
theorem NoNewToken.call (h : NoNewToken k (some ')') false rest u)
    (hname : splitName? t = some (name, inner)) (hknown : LibraryFunction.isKnown name = true)
    (hcall : splitCall? inner = some (args, rest)) (hword : before.any isWord = false)
    (hapart : callApart before t = true) (hlit : IsLiteral lit) (hhead : u.head? = rest.head?) :
    NoNewToken k before false t (lit ++ u) := by
  intro before₀ p s hbefore hq hs
  obtain ⟨hdollar, hclear⟩ := (callApart_of_closed hname hknown hcall).1 hapart
  have hu : ∀ c ∈ u.head?, isRefChar c = false := fun c hc =>
    isRefChar_of_isAlphanum (hclear c (hhead ▸ hc)).1 (hclear c (hhead ▸ hc)).2
  have hseam {w : Text} (hw : splitReference? w = none) : p ≠ [] → Clean p w := by
    intro hp
    have hlast := List.getLast?_eq_some_getLast hp
    rw [hlast, Option.some_or] at hbefore
    rw [hbefore] at hword hdollar
    exact .of_last hlast (isRefChar_of_isWord hword (hdollar _ rfl)) fun _ => hw
  have hleft := scanFrom_append before₀ false
    (hseam ((hlit.splitReference? hu).2 [] lit rfl))
  have hright := scanFrom_append before₀ false (hseam (splitReference?_of_call hname hknown))
  have hcallseam : name ++ '(' :: args ++ [')'] ≠ [] →
      Clean (name ++ '(' :: args ++ [')']) rest := fun _ =>
    .of_last List.getLast?_concat (by decide) fun hc => absurd hc (by decide)
  have hsplit : t = name ++ '(' :: args ++ [')'] ++ rest := by
    rw [eq_of_splitName?_splitCall? hname hcall]
    simp
  have hscan : scanFrom before false t = scanFrom before false (name ++ '(' :: args ++ [')']) ++
      scanFrom (some ')') false rest := by
    rw [hsplit, scanFrom_append before false hcallseam, List.getLast?_concat,
      quotedAfter_call hname hcall]
    rfl
  rw [hleft, ← hq, ← hbefore, scanFrom_literal before hlit hu, scanFrom_of_head hu,
    List.mem_append, List.mem_append] at hs
  rw [hright, ← hq, ← hbefore, hscan]
  rcases hs with hs | hs | hs
  · exact ⟨s, List.mem_append_left _ hs⟩
  · simp at hs
  · obtain ⟨s', hs'⟩ := h (some ')') [] s rfl rfl hs
    exact ⟨s', List.mem_append_right _ (List.mem_append_right _ hs')⟩

theorem noNewToken_of_expands (hapart : callsApartFrom before q t = true)
    (hu : Expands (segmentsFrom LibraryFunction.isKnown before q t) u) :
    NoNewToken k before q t u := by
  have tail {c : Char} {r : Text} {q q' : Bool} {before : Option Char}
      (hc : (if c = '"' then !q else q) = q') (h : callsApartFrom before q (c :: r) = true) :
      callsApartFrom (some c) q' r = true :=
    hc ▸ (Bool.and_eq_true_iff.1 h).2
  fun_induction segmentsFrom LibraryFunction.isKnown before q t generalizing u with
  | case1 =>
    cases hu
    exact fun _ _ s _ _ hs => ⟨s, hs⟩
  | case2 before q r ih =>
    cases hu with
    | plain hu => exact (ih (tail (if_pos rfl) hapart) hu).cons (if_pos rfl)
  | case3 before q c r hc _ ih =>
    cases hu with
    | plain hu => exact (ih (tail (if_neg hc) hapart) hu).cons (if_neg hc)
  | case4 before q c r hc _ _ ih =>
    cases hu with
    | plain hu => exact (ih (tail (if_neg hc) hapart) hu).cons (if_neg hc)
  | case5 => cases hu
  | case6 before q c r hc hplain name inner hname hknown args rest hcall _ ih =>
    obtain ⟨rfl, hword⟩ : q = false ∧ before.any isWord = false := by simpa using hplain
    have hsplit : c :: r = name ++ '(' :: args ++ [')'] ++ rest := by
      rw [eq_of_splitName?_splitCall? hname hcall]
      simp
    have hrest := callsApartFrom_append (hsplit ▸ hapart)
    rw [List.getLast?_concat, quotedAfter_call hname hcall] at hrest
    have hcallApart : callApart before (c :: r) = true :=
      callsApartFrom_iff.1 hapart [] c r rfl rfl hword
    obtain ⟨-, hclear⟩ := (callApart_of_closed hname hknown hcall).1 hcallApart
    cases hu with
    | call hlit hu =>
      have hhead := head?_of_expands hu fun d hd =>
        (not_isRefChar_iff.1 (isRefChar_of_isAlphanum (hclear d hd).1 (hclear d hd).2)).1
      exact (ih hrest hu).call hname hknown hcall hword hcallApart hlit hhead
  | case7 before q c r hc _ name inner _ _ ih =>
    cases hu with
    | plain hu => exact (ih (tail (if_neg hc) hapart) hu).cons (if_neg hc)

/-- With all calls apart, an expansion has no token but those of the text. -/
theorem mem_tokens_of_expands (ht : callsApart t = true)
    (hu : Expands (segments LibraryFunction.isKnown t) u) (hk : k ∈ tokens u) : k ∈ tokens t := by
  obtain ⟨s, hs⟩ := mem_tokens.1 hk
  exact mem_tokens.2 (noNewToken_of_expands ht hu none [] s rfl rfl hs)

end Expansion

end Spreadsheet.Formula
