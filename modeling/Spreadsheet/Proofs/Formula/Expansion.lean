import Spreadsheet.Proofs.Context
import Spreadsheet.Proofs.Formula.Apart
import Spreadsheet.Proofs.Formula.Segment
import Spreadsheet.Proofs.Text.Closed

/-!
What a text with library calls expands to. The text is written as stretches, each with the call at its
end, and a last stretch without one. Main statement: each of these calls is made once, in their order,
and gives way to the literal of its value; the calls within their arguments are left to them. The
first call that has no literal ends the expansion with its failure.
-/
namespace Spreadsheet.Formula

open Text

variable {before : Option Char} {o : Options} {eval : Text → Query Value} {t w last : Text}

/-- No name of a library function stands in the text with a parenthesis behind it, outside string
literals and with no word character before it. -/
def NoOpening (t : Text) : Prop :=
  ∀ (u : Text) (f : LibraryFunction) (v : Text), t = u ++ (f.name.toList ++ '(' :: v) →
    quotedAfter false u = false → u.getLast?.any isWord = true

theorem noOpening_iff : NoOpening t ↔ ∀ n < t.length, ∀ f ∈ LibraryFunction.all,
    f.name.toList ++ ['('] <+: t.drop n → quotedAfter false (t.take n) = false →
      (t.take n).getLast?.any isWord = true := by
  constructor
  · rintro h n - f - ⟨v, hv⟩ hq
    have hsplit : t = t.take n ++ (f.name.toList ++ '(' :: v) := by
      have htake := List.take_append_drop n t
      rw [← hv] at htake
      simpa using htake.symm
    exact h _ f v hsplit hq
  · rintro h u f v rfl hq
    have hprefix : f.name.toList ++ ['('] <+: f.name.toList ++ '(' :: v := ⟨v, by simp⟩
    have hopens := h u.length (by simp) f f.mem_all
    rw [List.drop_left, List.take_left] at hopens
    exact hopens hprefix hq

instance (t : Text) : Decidable (NoOpening t) := decidable_of_iff _ noOpening_iff.symm

/-- A stretch of text with a call at its end. -/
structure Stretch where
  before : Text
  function : LibraryFunction
  args : Text

namespace Stretch

def name (s : Stretch) : Text := s.function.name.toList

def text (s : Stretch) : Text := s.before ++ (s.name ++ '(' :: (s.args ++ [')']))

/-- No other call begins before the call, which stands outside string literals and behind no word
character, and its argument text is balanced. -/
structure Valid (s : Stretch) : Prop where
  noOpening : NoOpening s.before
  closed : quotedAfter false s.before = false
  edge : s.before.getLast?.any isWord = false
  balanced : Balanced s.args

def segments (s : Stretch) : List Segment := s.before.map .plain ++ [.call s.name s.args]

/-- The text that the call leaves in an expression. -/
def literal (o : Options) (eval : Text → Query Value) (s : Stretch) : Query Text := do
  .ofExcept (callLiteral (← callNamed o eval s.name s.args))

end Stretch

variable {s : Stretch} {ss : List Stretch}

/-- The text of the stretches with the last one behind them. -/
def laid (ss : List Stretch) (last : Text) : Text := ss.flatMap Stretch.text ++ last

/-- The text with literals in the places of the calls. -/
def woven (ss : List Stretch) (lits : List Text) (last : Text) : Text :=
  (List.zipWith (fun s lit => s.before ++ lit) ss lits).flatten ++ last

section Segments

theorem isKnown_name (f : LibraryFunction) : LibraryFunction.isKnown f.name.toList = true := by
  cases f <;> decide

theorem splitName?_name (f : LibraryFunction) (r : Text) :
    splitName? (f.name.toList ++ '(' :: r) = some (f.name.toList, r) := by
  have hupper := isUpper_of_mem_name f
  have hne : f.name.toList ≠ [] := by cases f <;> decide
  refine splitName?_eq_some_iff.2 ⟨rfl, fun c hc => by simp [hupper c hc], _,
    List.head?_eq_some_head hne, hupper _ (List.head_mem hne)⟩

/-- A text without openings is passed over if it ends before a word could go on behind it. -/
theorem segmentsFrom_of_noOpening {rest : Text} (hw : NoOpening w)
    (hedge : rest = [] ∨ w.getLast?.any isWord = false) :
    segmentsFrom LibraryFunction.isKnown before false (w ++ rest) = w.map .plain ++
      segmentsFrom LibraryFunction.isKnown (w.getLast?.or before) (quotedAfter false w) rest := by
  refine segmentsFrom_append fun u c v hsplit hq hword name inner hname => ?_
  refine Bool.eq_false_iff.2 fun hknown => ?_
  obtain ⟨heq, hall, -⟩ := splitName?_eq_some_iff.1 hname
  obtain ⟨f, rfl⟩ := exists_name_of_isKnown hall hknown
  have hcrosses {z : Text} (hz : f.name.toList = (c :: v) ++ z) (hrest : rest ≠ []) : False := by
    have hlast := List.getLast?_eq_some_getLast (List.cons_ne_nil c v)
    have hend := hedge.resolve_left hrest
    rw [hsplit, getLast?_append_right (List.cons_ne_nil c v), hlast, Option.any_some] at hend
    have hmem : (c :: v).getLast (List.cons_ne_nil c v) ∈ f.name.toList := by
      rw [hz]
      exact List.mem_append_left z (List.getLast_mem _)
    rw [isWord_of_isAlphanum (by simp [Char.isAlphanum, Char.isAlpha, isUpper_of_mem_name f _ hmem])]
      at hend
    cases hend
  rcases List.append_eq_append_iff.1 heq with ⟨z, hz, hrest⟩ | ⟨z, hz, hrest⟩
  · exact hcrosses hz (by simp [hrest])
  · cases z with
    | nil =>
      refine hcrosses (z := []) (by rw [hz, List.append_nil, List.append_nil]) ?_
      rintro rfl
      cases hrest
    | cons d z =>
      obtain ⟨rfl, -⟩ := List.cons.inj hrest
      have hinside := hw u f z (by rw [hsplit, hz]) hq
      cases hl : u.getLast? with
      | none =>
        rw [hl] at hinside
        cases hinside
      | some d =>
        rw [hl] at hinside hword
        cases hinside.symm.trans hword

theorem segmentsFrom_laid (hss : ∀ s ∈ ss, s.Valid) (hlast : NoOpening last)
    (hbefore : before.any isWord = false) :
    segmentsFrom LibraryFunction.isKnown before false (laid ss last) =
      ss.flatMap Stretch.segments ++ last.map .plain := by
  induction ss generalizing before with
  | nil =>
    have hpassed : segmentsFrom LibraryFunction.isKnown before false (last ++ []) = _ :=
      segmentsFrom_of_noOpening hlast (.inl rfl)
    rw [List.append_nil, segmentsFrom, List.append_nil] at hpassed
    exact hpassed
  | cons s ss ih =>
    obtain ⟨hs, hss⟩ := List.forall_mem_cons.1 hss
    have hlaid : laid (s :: ss) last =
        s.before ++ (s.name ++ '(' :: (s.args ++ ')' :: laid ss last)) := by
      simp [laid, Stretch.text]
    have hname : splitName? (s.name ++ '(' :: (s.args ++ ')' :: laid ss last)) =
        some (s.name, s.args ++ ')' :: laid ss last) := splitName?_name s.function _
    have hword : (s.before.getLast?.or before).any isWord = false := by
      cases hl : s.before.getLast? with
      | none => exact hbefore
      | some c =>
        have hedge := hs.edge
        rwa [hl] at hedge
    rw [hlaid, segmentsFrom_of_noOpening hs.noOpening (.inr hs.edge), hs.closed,
      segmentsFrom_of_known hword hname (isKnown_name s.function), hs.balanced.splitCall?]
    dsimp only
    rw [ih hss (by decide)]
    simp [Stretch.segments]

end Segments

section Expand

/-- Each call is made once, from left to right, and its literal put in its place. -/
theorem expandCalls_laid (hss : ∀ s ∈ ss, s.Valid) (hlast : NoOpening last) :
    expandCalls o eval (laid ss last) =
      ss.mapM (Stretch.literal o eval) >>= fun lits => pure (woven ss lits last) := by
  rw [expandCalls, segments, segmentsFrom_laid hss hlast rfl]
  clear hss
  induction ss with
  | nil =>
    have hplain : expandSegments o eval (last.map .plain ++ []) = _ :=
      expandSegments_map_plain last []
    rw [List.append_nil] at hplain
    rw [List.flatMap_nil, List.nil_append, hplain]
    exact congrArg Query.done (List.append_nil last)
  | cons s ss ih =>
    have hstretch : expandSegments o eval s.segments =
        s.literal o eval >>= fun lit => pure (s.before ++ lit) := by
      have hcall : expandSegments o eval [.call s.name s.args] = s.literal o eval := by
        have happend (t : Text) : expandSegments o eval [] >>= (fun u => pure (t ++ u)) =
            Query.done t := congrArg Query.done (List.append_nil t)
        rw [expandSegments_cons]
        simp only [happend]
        exact bind_pure _
      rw [Stretch.segments, expandSegments_map_plain, hcall]
    rw [List.flatMap_cons, List.append_assoc, expandSegments_append, hstretch, ih, List.mapM_cons]
    simp only [bind_assoc, pure_bind]
    simp [woven]

theorem answer_mapM {α β : Type} (x : Context) (f : α → Query β) (as : List α) (p : Progress) :
    (∃ bs q, bs.length = as.length ∧ x.answer (as.mapM f) p = (.ok bs, q)) ∨
      ∃ pre a post bs q e r, as = pre ++ a :: post ∧ x.answer (pre.mapM f) p = (.ok bs, q) ∧
        x.answer (f a) q = (.error e, r) ∧ x.answer (as.mapM f) p = (.error e, r) := by
  induction as generalizing p with
  | nil => exact .inl ⟨[], p, rfl, rfl⟩
  | cons a as ih =>
    have hfirst {b : β} {q : Progress} (hb : x.answer (f a) p = (.ok b, q)) {cs : List α}
        {r : Progress} {bs : List β} (hbs : x.answer (cs.mapM f) q = (.ok bs, r)) :
        x.answer ((a :: cs).mapM f) p = (.ok (b :: bs), r) := by
      rw [List.mapM_cons, Context.answer_bind_of_ok hb, Context.answer_bind_of_ok hbs]
      rfl
    rcases hanswer : x.answer (f a) p with ⟨e | b, q⟩
    · refine .inr ⟨[], a, as, [], p, e, q, rfl, rfl, hanswer, ?_⟩
      rw [List.mapM_cons]
      exact Context.answer_bind_of_error hanswer
    · rcases ih q with ⟨bs, r, hlength, hbs⟩ | ⟨pre, c, post, bs, r, e, r', rfl, hpre, hc, has⟩
      · exact .inl ⟨b :: bs, r, congrArg (· + 1) hlength, hfirst hanswer hbs⟩
      · refine .inr ⟨a :: pre, c, post, b :: bs, r, e, r', rfl, hfirst hanswer hpre, hc, ?_⟩
        rw [List.mapM_cons, Context.answer_bind_of_ok hanswer]
        exact Context.answer_bind_of_error has

end Expand

/-- The text of the stretches expands to the same text with the literals of its calls, made once each
and from left to right; or the first call that fails, or has no literal, gives its failure. -/
theorem answer_expandCalls_laid (hss : ∀ s ∈ ss, s.Valid) (hlast : NoOpening last) (x : Context)
    (eval : Text → Query Value) (p : Progress) :
    (∃ lits q, lits.length = ss.length ∧
      x.answer (ss.mapM (Stretch.literal x.options eval)) p = (.ok lits, q) ∧
      x.answer (expandCalls x.options eval (laid ss last)) p = (.ok (woven ss lits last), q)) ∨
    ∃ pre s post lits q e r, ss = pre ++ s :: post ∧
      x.answer (pre.mapM (Stretch.literal x.options eval)) p = (.ok lits, q) ∧
      x.answer (s.literal x.options eval) q = (.error e, r) ∧
      x.answer (ss.mapM (Stretch.literal x.options eval)) p = (.error e, r) ∧
      x.answer (expandCalls x.options eval (laid ss last)) p = (.error e, r) := by
  rw [expandCalls_laid hss hlast]
  rcases answer_mapM x (Stretch.literal x.options eval) ss p with
    ⟨lits, q, hlength, hlits⟩ | ⟨pre, s, post, lits, q, e, r, hsplit, hpre, hs, hfails⟩
  · refine .inl ⟨lits, q, hlength, hlits, ?_⟩
    rw [Context.answer_bind_of_ok hlits]
    rfl
  · exact .inr ⟨pre, s, post, lits, q, e, r, hsplit, hpre, hs, hfails,
      Context.answer_bind_of_error hfails⟩

/-- A call in an argument, and a name with a parenthesis in a literal. -/
def nestedSum : List Stretch :=
  [⟨"\"MAX(\"&".toList, .sum, "1,MAX(2,\")\")".toList⟩, ⟨"+".toList, .length, "\"a(\"".toList⟩]

theorem valid_nestedSum : ∀ s ∈ nestedSum, s.Valid := by
  refine List.forall_mem_cons.2 ⟨?_, List.forall_mem_singleton.2 ?_⟩ <;>
    constructor <;> decide +kernel

def blankSheet : Context := .untracked .empty .standard

/-- Where the nested call is five, the sum is six. -/
theorem answer_expandCalls_laid_nested :
    blankSheet.answer (expandCalls blankSheet.options (fun _ => .done (.number 5))
        "\"MAX(\"&SUM(1,MAX(2,\")\"))+LEN(\"a(\")/FOO(2)".toList) .start =
      (.ok "\"MAX(\"&6+2/FOO(2)".toList, .start) := by
  have hlast : NoOpening "/FOO(2)".toList := by decide +kernel
  have htext : laid nestedSum "/FOO(2)".toList =
    "\"MAX(\"&SUM(1,MAX(2,\")\"))+LEN(\"a(\")/FOO(2)".toList := by decide +kernel
  have hwoven : woven nestedSum ["6".toList, "2".toList] "/FOO(2)".toList =
    "\"MAX(\"&6+2/FOO(2)".toList := by decide +kernel
  have hlits : blankSheet.answer
      (nestedSum.mapM (Stretch.literal blankSheet.options fun _ => .done (.number 5))) .start =
        (.ok ["6".toList, "2".toList], .start) := by
    rfl
  rcases answer_expandCalls_laid valid_nestedSum hlast blankSheet (fun _ => .done (.number 5)) .start
    with ⟨lits, q, -, hall, hanswer⟩ | ⟨_, _, _, _, _, _, _, _, _, _, hfails, _⟩
  · rw [hlits] at hall
    obtain ⟨hok, rfl⟩ := Prod.mk.inj hall
    obtain rfl := Except.ok.inj hok
    rwa [htext, hwoven] at hanswer
  · rw [hlits] at hfails
    cases hfails

end Spreadsheet.Formula
