import Spreadsheet.Proofs.Expression.Contract
import Spreadsheet.Proofs.Expression.Parser

/-!
Comparisons of texts that hold no comparison themselves. The characters of comparison signs are in
no other token, so that the text before such a sign and the text behind it are cut into tokens each
by itself. Inside an expression a comparison stands between parentheses unless it is the outermost
operator. Main statement: two texts without comparison are read as the sides of a comparison exactly
if each of them is read by itself.
-/
namespace Spreadsheet.Expression

open Text (isBlank)
open Token

variable {n : Nat} {t u v w g : Text} {k : Token} {op : Comparison} {ts us xs ys : List Token}
  {c : Category} {e a b : Expression}

section Characters

/-- The characters of comparison signs. -/
def isRelation (c : Char) : Bool := c == '<' || c == '>' || c == '=' || c == '!'

theorem isRelation_of_mem_symbols (h : (w, .comparison op) ∈ symbols) :
    ∀ c ∈ w, isRelation c = true := by
  have hall : ∀ p ∈ symbols, (∃ op, p.2 = .comparison op) → ∀ c ∈ p.1, isRelation c = true := by
    simp [symbols, isRelation]
  exact hall _ h ⟨op, rfl⟩

theorem Spells.mem (h : Spells t ts) {d : Char} (hd : d ∈ t) :
    isBlank d = true ∨ ∃ k ∈ ts, ∃ w r, Lexeme w r k ∧ d ∈ w := by
  induction h with
  | nil => cases hd
  | blank hc _ ih =>
    rcases List.mem_cons.1 hd with rfl | hd
    · exact .inl hc
    · exact ih hd
  | @token w t k ts hw _ ih =>
    rcases List.mem_append.1 hd with hd | hd
    · exact .inr ⟨k, List.mem_cons_self, w, t, hw, hd⟩
    · exact (ih hd).imp_right fun ⟨k', hk', hlexeme⟩ => ⟨k', List.mem_cons_of_mem k hk', hlexeme⟩

theorem Spells.exists_lexeme (h : Spells t ts) (hk : k ∈ ts) :
    ∃ w r, Lexeme w r k ∧ ∀ d ∈ w, d ∈ t := by
  induction h with
  | nil => cases hk
  | @blank c t ts _ _ ih =>
    obtain ⟨w, r, hw, hmem⟩ := ih hk
    exact ⟨w, r, hw, fun d hd => List.mem_cons_of_mem c (hmem d hd)⟩
  | @token w t k' ts hw _ ih =>
    rcases List.mem_cons.1 hk with rfl | hk
    · exact ⟨w, t, hw, fun d hd => List.mem_append_left t hd⟩
    · obtain ⟨w', r, hw', hmem⟩ := ih hk
      exact ⟨w', r, hw', fun d hd => List.mem_append_right w (hmem d hd)⟩

theorem Lexeme.isRelation (h : Lexeme w u (.comparison op)) : ∀ c ∈ w, isRelation c = true := by
  cases h with
  | symbol _ hk => exact isRelation_of_mem_symbols hk

theorem Spells.exists_isRelation (h : Spells t ts) (hop : .comparison op ∈ ts) :
    ∃ d ∈ t, isRelation d = true := by
  obtain ⟨w, r, hw, hmem⟩ := h.exists_lexeme hop
  obtain ⟨d, w, rfl⟩ := List.exists_cons_of_ne_nil hw.isUnit.ne_nil
  exact ⟨d, hmem d List.mem_cons_self, hw.isRelation d List.mem_cons_self⟩

theorem Spells.comparison_not_mem (h : Spells t ts) (ht : ∀ c ∈ t, isRelation c = false)
    (op : Comparison) : .comparison op ∉ ts := by
  intro hop
  obtain ⟨d, hd, hrel⟩ := h.exists_isRelation hop
  rw [ht d hd] at hrel
  cases hrel

theorem isRelation_of_isNamePart {d : Char} (h : isNamePart d = true) : isRelation d = false := by
  by_contra hd
  simp only [isRelation, Bool.not_eq_false, Bool.or_eq_true, beq_iff_eq] at hd
  rcases hd with ((rfl | rfl) | rfl) | rfl <;> cases h

/-- The characters of a token are all of comparison signs or none of them. -/
theorem IsUnit.isRelation_congr (h : IsUnit w) {d d' : Char} (hd : d ∈ w) (hd' : d' ∈ w) :
    isRelation d = isRelation d' := by
  rcases h with ⟨k, hk⟩ | h | h
  · have hall : ∀ p ∈ symbols, ∀ d ∈ p.1, ∀ d' ∈ p.1, isRelation d = isRelation d' := by
      simp [symbols, isRelation]
    exact hall _ hk d hd d' hd'
  · have hnone : ∀ d ∈ w, isRelation d = false := by
      intro d hd
      rcases h.mem hd with hdigit | rfl | hmark | rfl | rfl
      · exact isRelation_of_isNamePart (isNamePart_of_isDigit hdigit)
      · rfl
      · exact isRelation_of_isNamePart hmark.isNamePart
      all_goals rfl
    rw [hnone d hd, hnone d' hd']
  · rw [isRelation_of_isNamePart (h.isNamePart hd), isRelation_of_isNamePart (h.isNamePart hd')]

/-- No token reaches over a blank, or from a comparison sign to another character. -/
theorem cuts_of_isRelation (h : ∀ d ∈ u.getLast?, ∀ d' ∈ v.head?,
    isBlank d = true ∨ isBlank d' = true ∨ isRelation d ≠ isRelation d') : Cuts u v := by
  refine cuts_of_neighbours fun x y d d' z hseam hd' hunit => ?_
  rcases h d (by rw [hseam]; exact List.getLast?_concat) d' hd' with hd | hd | hd
  · rw [hunit.not_isBlank (by simp)] at hd
    cases hd
  · rw [hunit.not_isBlank (by simp)] at hd
    cases hd
  · exact hd (hunit.isRelation_congr (by simp) (by simp))

end Characters

section Shape

/-- Every comparison in the tokens stands between parentheses. -/
def Sheltered (ts : List Token) : Prop :=
  ∀ xs op ys, ts = xs ++ .comparison op :: ys → 0 < depth xs

theorem sheltered_singleton (hk : ∀ op, k ≠ .comparison op) : Sheltered [k] := by
  intro xs op ys h
  rcases List.append_eq_singleton_iff.1 h.symm with ⟨-, h⟩ | ⟨-, h⟩
  · exact absurd (List.cons.inj h).1.symm (hk op)
  · cases h

theorem Sheltered.append_cons (hts : Sheltered ts) (hus : Sheltered us) (hbalanced : Balanced ts)
    (hweight : weight k = 0) (hk : ∀ op, k ≠ .comparison op) : Sheltered (ts ++ k :: us) := by
  intro xs op ys h
  rcases List.append_eq_append_iff.1 h with ⟨zs, rfl, hrest⟩ | ⟨zs, rfl, hrest⟩
  · cases zs with
    | nil => exact absurd (List.cons.inj hrest).1 (hk op)
    | cons j zs =>
      obtain ⟨rfl, rfl⟩ := List.cons.inj hrest
      have := hus zs op ys rfl
      rw [depth_append, depth_cons, hbalanced.depth_eq, hweight]
      omega
  · cases zs with
    | nil => exact absurd (List.cons.inj hrest).1.symm (hk op)
    | cons j zs =>
      obtain ⟨rfl, -⟩ := List.cons.inj hrest
      exact hts xs op zs rfl

theorem Sheltered.cons (hts : Sheltered ts) (hweight : weight k = 0)
    (hk : ∀ op, k ≠ .comparison op) : Sheltered (k :: ts) :=
  Sheltered.append_cons (fun _ _ _ h => nomatch List.append_eq_nil_iff.1 h.symm) hts balanced_nil
    hweight hk

theorem sheltered_parens (hts : Balanced ts) :
    Sheltered (.leftParen :: (ts ++ [.rightParen])) := by
  intro xs op ys h
  cases xs with
  | nil => cases (List.cons.inj h).1
  | cons j xs =>
    obtain ⟨rfl, hrest⟩ := List.cons.inj h
    rcases List.append_eq_append_iff.1 hrest with ⟨zs, rfl, hclose⟩ | ⟨zs, rfl, -⟩
    · cases zs with
      | nil => cases (List.cons.inj hclose).1
      | cons j zs => cases (List.append_eq_nil_iff.1 (List.cons.inj hclose).2.symm).2
    · have := hts.nonneg xs zs rfl
      rw [depth_cons, weight]
      omega

/-- A comparison that is not the outermost operator stands between parentheses. -/
theorem Derives.sheltered (h : Derives n c ts e) (hc : c ≠ .chain .comparison) :
    Sheltered ts := by
  induction h with
  | @single n c ts e _ ih =>
    apply ih
    cases c with
    | comparison => exact absurd rfl hc
    | sum | product => nofun
  | @step n c ts us k op a b hleft hk _ ihleft ihright =>
    refine (ihleft hc).append_cons (ihright ?_) hleft.balanced hk.weight_eq ?_
    · cases c with
      | comparison => exact absurd rfl hc
      | sum | product => nofun
    · rintro op rfl
      cases c with
      | comparison => exact hc rfl
      | sum | product => cases hk
  | base _ ih => exact ih nofun
  | power hbase _ ihbase ihexponent =>
    exact (ihbase nofun).append_cons (ihexponent nofun) hbase.balanced rfl nofun
  | unsigned _ ih => exact ih nofun
  | @sign n ts k op e hk _ ih =>
    refine (ih nofun).cons ?_ ?_
    · cases hk <;> rfl
    · rintro op rfl
      cases hk
  | number x => exact sheltered_singleton nofun
  | constant _ => exact sheltered_singleton nofun
  | parens h _ => exact sheltered_parens h.balanced
  | call _ _ h _ =>
    have harguments := balanced_arguments fun arg harg => (h arg harg).balanced
    exact (sheltered_parens harguments).cons rfl nofun

/-- A comparison outside parentheses, the only one, has each side as an expression by itself. -/
theorem Derives.of_comparison (h : Derives n (.chain .comparison) (xs ++ .comparison op :: ys) e)
    (hxs : ∀ op, .comparison op ∉ xs) (hys : ∀ op, .comparison op ∉ ys) (hdepth : depth xs = 0) :
    ∃ a b, e = .binary (.comparison op) a b ∧ Derives n (.chain .comparison) xs a ∧
      Derives n (.chain .sum) ys b := by
  generalize hts : xs ++ .comparison op :: ys = ts at h
  cases h with
  | single h =>
    have hopen := h.sheltered nofun xs op ys hts.symm
    omega
  | @step _ _ ts us k op' a b hleft hk hright =>
    obtain ⟨op''⟩ := hk
    rcases List.append_eq_append_iff.1 hts with ⟨zs, rfl, hrest⟩ | ⟨zs, rfl, hrest⟩
    · cases zs with
      | nil =>
        obtain ⟨hop, rfl⟩ := List.cons.inj hrest
        obtain rfl := Token.comparison.inj hop
        rw [List.append_nil] at hleft
        exact ⟨a, b, rfl, hleft, hright⟩
      | cons j zs =>
        refine absurd ?_ (hys op'')
        rw [(List.cons.inj hrest).2]
        simp
    · cases zs with
      | nil =>
        obtain ⟨hop, rfl⟩ := List.cons.inj hrest
        obtain rfl := Token.comparison.inj hop
        rw [List.append_nil]
        exact ⟨a, b, rfl, hleft, hright⟩
      | cons j zs =>
        obtain ⟨rfl, -⟩ := List.cons.inj hrest
        exact absurd (by simp) (hxs op'')

theorem Derives.sum_of_comparison (h : Derives n (.chain .comparison) ts e)
    (hts : ∀ op, .comparison op ∉ ts) : Derives n (.chain .sum) ts e := by
  cases h with
  | single h => exact h
  | @step _ _ ts us k op' a b hleft hk hright =>
    obtain ⟨op⟩ := hk
    exact absurd (by simp) (hts op)

end Shape

section Sides

variable {vs : List Token} {m m' : Nat}

theorem Spells.sign (hg : Spells g [.comparison op]) :
    g ≠ [] ∧ ∀ d ∈ g, isBlank d = true ∨ isRelation d = true := by
  constructor
  · rintro rfl
    cases hg.eq_nil
  · intro d hd
    refine (hg.mem hd).imp_right ?_
    rintro ⟨k, hk, w, r, hw, hmem⟩
    obtain rfl := List.mem_singleton.1 hk
    exact hw.isRelation d hmem

theorem spells_blank (h : ∀ d ∈ t, isBlank d = true) : Spells t [] := by
  induction t with
  | nil => exact .nil
  | cons c t ih =>
    obtain ⟨hc, ht⟩ := List.forall_mem_cons.1 h
    exact .blank hc (ih ht)

theorem spells_sign (hw : (w, .comparison op) ∈ symbols) (hu : ∀ d ∈ u, isBlank d = true)
    (hv : ∀ d ∈ v, isBlank d = true) : Spells (u ++ (w ++ v)) [.comparison op] := by
  have hlexeme : Lexeme w [] (.comparison op) :=
    .symbol ⟨⟨.comparison op, hw⟩, fun _ hc => nomatch hc⟩ hw
  have hsign : Spells w [.comparison op] := by
    have hspells := Spells.token hlexeme .nil
    rwa [List.append_nil] at hspells
  have hright : Cuts w v := cuts_of_isRelation fun d _ d' hd' =>
    .inr (.inl (hv d' (List.mem_of_mem_head? hd')))
  have hleft : Cuts u (w ++ v) := cuts_of_isRelation fun d hd d' _ =>
    .inl (hu d (List.mem_of_getLast? hd))
  exact (spells_blank hu).append_of_cuts (hsign.append_of_cuts (spells_blank hv) hright) hleft

/-- A comparison sign with blanks around it stands between two texts without comparison. -/
theorem spells_comparison (hu : Spells u us) (hg : Spells g [.comparison op]) (hv : Spells v vs)
    (hurel : ∀ d ∈ u, isRelation d = false) (hvrel : ∀ d ∈ v, isRelation d = false) :
    Spells (u ++ (g ++ v)) (us ++ .comparison op :: vs) := by
  obtain ⟨hgne, hgap⟩ := hg.sign
  have hright : Cuts g v := cuts_of_isRelation fun d hd d' hd' => by
    refine (hgap d (List.mem_of_getLast? hd)).imp_right fun hrel => .inr ?_
    rw [hrel, hvrel d' (List.mem_of_mem_head? hd')]
    decide
  have hleft : Cuts u (g ++ v) := cuts_of_isRelation fun d hd d' hd' => by
    rw [List.head?_append_of_ne_nil g hgne] at hd'
    refine .inr ((hgap d' (List.mem_of_mem_head? hd')).imp_right fun hrel => ?_)
    rw [hrel, hurel d (List.mem_of_getLast? hd)]
    decide
  exact hu.append_of_cuts (hg.append_of_cuts hv hright) hleft

theorem parse_sign_ne_ok (hg : Spells g [.comparison op]) (hv : Spells v vs)
    (hvrel : ∀ d ∈ v, isRelation d = false) : parse (g ++ v) ≠ .ok e := by
  intro h
  have hspells : Spells (g ++ v) (.comparison op :: vs) := spells_comparison .nil hg hv nofun hvrel
  have hd : Derives (maxNesting - 1) (.chain .comparison) ([] ++ .comparison op :: vs) e :=
    derives_of_parse hspells h
  obtain ⟨a, -, -, ha, -⟩ := hd.of_comparison nofun (hv.comparison_not_mem hvrel) rfl
  obtain ⟨k, us, hnil, -⟩ := ha.exists_cons
  cases hnil

/-- Two texts without comparison are the sides of one exactly if each is read by itself. -/
theorem parse_comparison_iff (hu : Spells u us) (hg : Spells g [.comparison op]) (hv : Spells v vs)
    (hurel : ∀ d ∈ u, isRelation d = false) (hvrel : ∀ d ∈ v, isRelation d = false)
    (ha : Derives m (.chain .comparison) us a) :
    parse (u ++ (g ++ v)) = .ok e ↔
      ∃ a b, e = .binary (.comparison op) a b ∧ parse u = .ok a ∧ parse v = .ok b := by
  have hus := hu.comparison_not_mem hurel
  have hvs := hv.comparison_not_mem hvrel
  have hspells := spells_comparison hu hg hv hurel hvrel
  constructor
  · intro h
    obtain ⟨a, b, he, hda, hdb⟩ :=
      (derives_of_parse hspells h).of_comparison hus hvs ha.balanced.depth_eq
    exact ⟨a, b, he, parse_of_derives hu hda, parse_of_derives hv (.single hdb)⟩
  · rintro ⟨a, b, rfl, hpa, hpb⟩
    have hb := (derives_of_parse hv hpb).sum_of_comparison hvs
    exact parse_of_derives hspells (.step (derives_of_parse hu hpa) (.comparison op) hb)

end Sides

end Spreadsheet.Expression
