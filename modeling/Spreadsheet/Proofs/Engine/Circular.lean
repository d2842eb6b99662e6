import Spreadsheet.Proofs.Context.Invariant
import Spreadsheet.Proofs.Context.Memo
import Spreadsheet.Proofs.Engine.Current
import Spreadsheet.Proofs.Formula.Yields

/-!
Which cells show the error of a cycle. Those on a cycle of the graph do, since the engine knows them.
In the other direction the error comes from a cycle of the graph, as evaluation asks for no cell
without an edge to it: it is found on a cycle, or read from a cell that shows it.
-/
namespace Spreadsheet

open Relation

section Chain

variable {x : Context} {c d : Cell} {cs : List Cell}

theorem Context.Chain.transGen (h : x.Chain (c :: cs)) (hd : d ∈ cs) : TransGen x.Follows d c := by
  induction cs generalizing c with
  | nil => cases hd
  | cons b cs ih =>
    obtain ⟨hbc, hlinked⟩ := List.isChain_cons_cons.1 h.linked
    rcases List.mem_cons.1 hd with rfl | hd
    · exact .single hbc
    · exact (ih ⟨fun e he => h.formulas e (List.mem_cons_of_mem c he), hlinked⟩ hd).tail hbc

end Chain

namespace Engine

variable {e : Engine} {g : Grid} {a b c : Cell}

theorem Current.reads_of_follows (h : e.Current) (hlimit : 0 < e.options.maxRangeCells)
    (hab : (e.context g).Follows a b) : e.graph.Reads a b := by
  obtain ⟨-, text, htext, k, hk, hsize, hb⟩ := hab
  refine h.reads_iff.2 ⟨text, htext, k, hk, ?_, hb⟩
  cases k with
  | cell r =>
    change (Range.single r.cell).cellCount ≤ _
    rw [Range.single_cellCount]
    exact hlimit
  | range r s => exact hsize rfl

/-- From the cell the graph leads to a cycle, if only the one that the cell is on. -/
def LeadsToCycle (e : Engine) (c : Cell) : Prop :=
  ∃ d, ReflTransGen e.graph.Reads c d ∧ TransGen e.graph.Reads d d

theorem LeadsToCycle.of_reads (h : e.LeadsToCycle b) (hab : e.graph.Reads a b) :
    e.LeadsToCycle a := by
  obtain ⟨d, hbd, hd⟩ := h
  exact ⟨d, hbd.head hab, hd⟩

theorem display_of_mem_circular (hdepth : 0 < e.options.maxDepth) {text : String}
    (htext : e.formulas.get? c = some text) (hc : c ∈ e.circular) :
    e.display g c = .error .circular := by
  obtain ⟨n, hn⟩ : ∃ n, e.options.maxDepth = n + 1 := Nat.exists_eq_succ_of_ne_zero (by omega)
  have hroom : (e.context g).room .start = n + 1 := hn
  have hformula : (e.context g).formulas.get? c = some text := htext
  have hmem : c ∈ (e.context g).circular := hc
  rw [display, Context.cellValue, hroom, Context.valueWithin, hformula]
  simp [Progress.start, Progress.enter, Context.formulaWith, hmem]

theorem admits_not_circular : Admits (· ≠ .error .circular) fun _ => True where
  plain v hv _ he := by simp [he, Value.isError] at hv
  failed := by simp
  notAvailable := by simp
  content v _ := by cases v <;> simp [Value.ofContent]

/-- A formula shows the error of a cycle only if it lies on one or a cell that it reads shows it. -/
theorem Current.leadsToCycle_of_formulaWith (h : e.Current) (hlimit : 0 < e.options.maxRangeCells)
    {text : String} (htext : e.formulas.get? c = some text)
    (hcalls : Formula.callsApart text.toList = true) {I : Progress → Prop}
    {read : Cell → Progress → Value × Progress}
    (hread : ∀ d p, (e.context g).Follows c d → I p →
      ((read d p).1 = .error .circular → e.LeadsToCycle d) ∧ I (read d p).2)
    {p : Progress} (hp : I p)
    (hv : ((e.context g).formulaWith read text c p).1 = .error .circular) : e.LeadsToCycle c := by
  by_cases hc : c ∈ (e.context g).circular
  · exact ⟨c, .refl, h.mem_circular.1 hc⟩
  · by_contra hleads
    have hwithin := Formula.within_body_mayRead (e.context g).options hcalls
    have hvalue := Formula.yields_value admits_not_circular (e.context g).options
      (Formula.body text.toList)
    have hstep : ∀ d q, Formula.MayRead e.options.maxRangeCells text.toList d → I q →
        (read d q).1 ≠ .error .circular ∧ I (read d q).2 := by
      intro d q hd hq
      have hfollows : (e.context g).Follows c d := ⟨hc, text, htext, hd⟩
      obtain ⟨hshown, hq⟩ := hread d q hfollows hq
      exact ⟨fun hd' => hleads ((hshown hd').of_reads (h.reads_of_follows hlimit hfollows)), hq⟩
    rw [Context.formulaWith, if_neg hc] at hv
    refine Context.ofOutcome_mem (V := (· ≠ .error .circular)) ?_ hv
    exact (hvalue.run hwithin (fun _ _ => trivial) hstep hp).1

/-- The error of a cycle comes from a cycle, since the pending cells lead to each other. -/
theorem Current.upholds (h : e.Current) (hlimit : 0 < e.options.maxRangeCells)
    (hcalls : (e.context g).CallsApart) :
    (e.context g).Upholds (fun c v => v = .error .circular → e.LeadsToCycle c)
      (e.context g).Chain where
  content c _ hv := absurd hv (admits_not_circular.content _ trivial)
  again c cs hcs hc _ :=
    ⟨c, .refl, TransGen.mono (fun _ _ => h.reads_of_follows hlimit) c c (hcs.transGen hc)⟩
  deep c cs _ _ hv := absurd hv admits_not_circular.failed
  formula c cs text read htext hcs _ hread p hp := by
    have hreads := fun d q hd => hread d (hcs.cons hd) q
    exact ⟨h.leadsToCycle_of_formulaWith hlimit htext (hcalls c text htext) hreads hp,
      Context.formulaWith_keeps htext (hcalls c text htext) (fun d q hd hq => (hreads d q hd hq).2) hp⟩

/-- Every cell on a cycle shows it. And as long as a single cell is no range too large to track, a
cell shows the error of a cycle only if its precedents lead to one. -/
theorem display_circular (h : e.Reached) (hdepth : 0 < e.options.maxDepth) (g : Grid) :
    (∀ c, TransGen e.graph.Reads c c → e.display g c = .error .circular) ∧
      (0 < e.options.maxRangeCells →
        (∀ c text, e.formulas.get? c = some text → Formula.callsApart text.toList = true) →
        ∀ c, e.display g c = .error .circular →
          ∃ d, ReflTransGen e.graph.Reads c d ∧ TransGen e.graph.Reads d d) := by
  have hcurrent := h.current
  refine ⟨fun c hc => ?_, fun hlimit hcalls c hshown => ?_⟩
  · obtain ⟨d, hcd, -⟩ := TransGen.head'_iff.1 hc
    obtain ⟨text, htext, -⟩ := hcurrent.reads_iff.1 hcd
    exact display_of_mem_circular hdepth htext (hcurrent.mem_circular.2 hc)
  · have hupholds := hcurrent.upholds (g := g) hlimit hcalls
    have hchain : ((e.context g).formulas.get? c).isSome = true → (e.context g).Chain [c] :=
      fun hc => ⟨by simpa using hc, .singleton c⟩
    exact (hupholds.cellValue Context.holds_start hchain).1 hshown

/-- Two formulas that read each other. -/
theorem display_circular_mutual :
    let g := Grid.ofRows #[#[.text "=B1", .text "=SUM(A1:A2)+1"]]
    let e := (empty .standard).load g
    e.display g ⟨0, 0⟩ = .error .circular ∧
      ∃ d, ReflTransGen e.graph.Reads ⟨0, 0⟩ d ∧ TransGen e.graph.Reads d d := by
  intro g e
  have hreached : e.Reached := .load g (.empty .standard)
  obtain ⟨hcycle, hshown⟩ := display_circular hreached (by decide) g
  have hforth : e.graph.Reads ⟨0, 0⟩ ⟨0, 1⟩ := Graph.mem_precedentsOf.1 (by decide +kernel)
  have hback : e.graph.Reads ⟨0, 1⟩ ⟨0, 0⟩ := Graph.mem_precedentsOf.1 (by decide +kernel)
  have hcalls : ∀ c text, e.formulas.get? c = some text →
      Formula.callsApart text.toList = true := by
    intro c text htext
    have hentries : e.formulas.entries = [(⟨0, 0⟩, "=B1"), (⟨0, 1⟩, "=SUM(A1:A2)+1")] := by
      decide +kernel
    rw [← Graph.mem_entries, hentries] at htext
    have hall : ∀ entry ∈ [((⟨0, 0⟩ : Cell), "=B1"), (⟨0, 1⟩, "=SUM(A1:A2)+1")],
        Formula.callsApart entry.2.toList = true := by decide +kernel
    exact hall _ htext
  have hcircular := hcycle ⟨0, 0⟩ (.head hforth (.single hback))
  exact ⟨hcircular, hshown (by decide) hcalls _ hcircular⟩

end Engine

end Spreadsheet
