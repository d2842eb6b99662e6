import Spreadsheet.Proofs.Graph.Recalculation
import Spreadsheet.Proofs.Grid.Writes
import Spreadsheet.Proofs.Sheet.Run

/-!
Pastes as a whole. Every source cell is read before a target is written, and different source cells
have different targets, so a target ends with what its source cell held before, also where source and
targets overlap. Main statement: a paste is refused exactly if it is too large or leads off the grid,
and then nothing has changed; any other paste changes the targets and no other cell, and tells every
subscriber once.
-/
namespace Spreadsheet

/-- Content as it reads after a move by a number of rows and columns. -/
def Content.shift (rows cols : Int) : Content → Content
  | .text t =>
    if isFormulaText t then .text (String.ofList (Formula.shift t.toList rows cols)) else .text t
  | v => v

namespace Grid

variable {edits : List (Cell × Content)} {d : Cell} {v : Content}

theorem get_foldl_set_of_forall_ne (g : Grid) (h : ∀ e ∈ edits, e.1 ≠ d) :
    (edits.foldl (fun g e => g.set e.1 e.2) g).get d = g.get d := by
  have hget := get_write g edits d
  rw [lastWrite?_eq_none_iff.2 h] at hget
  exact hget

theorem get_foldl_set (g : Grid) (hmem : (d, v) ∈ edits) (h : ∀ w, (d, w) ∈ edits → w = v) :
    (edits.foldl (fun g e => g.set e.1 e.2) g).get d = v := by
  have hget := get_write g edits d
  cases hlast : lastWrite? edits d with
  | none => exact absurd rfl (lastWrite?_eq_none_iff.1 hlast (d, v) hmem)
  | some w =>
    rw [hlast] at hget
    exact hget.trans (h w (mem_of_lastWrite? hlast))

end Grid

namespace Range

theorem start_mem_cells (r : Range) : r.start ∈ r.cells := by
  rw [mem_cells, contains_iff]
  exact ⟨⟨Nat.le_refl _, UInt32.le_iff_toNat_le.1 r.row_le⟩, Nat.le_refl _,
    UInt32.le_iff_toNat_le.1 r.col_le⟩

theorem stop_mem_cells (r : Range) : r.stop ∈ r.cells := by
  rw [mem_cells, contains_iff]
  exact ⟨⟨UInt32.le_iff_toNat_le.1 r.row_le, Nat.le_refl _⟩, UInt32.le_iff_toNat_le.1 r.col_le,
    Nat.le_refl _⟩

end Range

theorem Engine.mem_affected (e : Engine) {changed : List Cell} {c : Cell} (h : c ∈ changed) :
    c ∈ e.affected changed := by
  unfold affected
  split
  · rw [List.mem_eraseDups]
    exact List.mem_append_left _ h
  · rw [(Graph.ordering_recalcOrder e.graph changed).mem_iff]
    exact ⟨c, h, .refl⟩

namespace Sheet

variable {s s' : Sheet} {c d : Cell} {cells : List Cell} {rows cols : Int}
  {edits : List (Cell × Content)} {source : Range} {target : Cell}

theorem moved_eq_shift (h : Cell.MovesTo rows cols c d) (v : Content) :
    moved c d v = v.shift rows cols := by
  have hrows : (d.row.toNat : Int) - c.row.toNat = rows := by
    have := h.1
    omega
  have hcols : (d.col.toNat : Int) - c.col.toNat = cols := by
    have := h.2
    omega
  cases v with
  | text t => simp only [moved, Content.shift, Formula.copy, hrows, hcols]
  | _ => rfl

theorem exists_pasteEdits?_iff (s : Sheet) (cells : List Cell) :
    (∃ edits, s.pasteEdits? rows cols cells = some edits) ↔
      ∀ c ∈ cells, Cell.StaysOn rows cols c := by
  induction cells with
  | nil => simp [pasteEdits?]
  | cons c cells ih =>
    rw [List.forall_mem_cons, ← ih, pasteEdits?]
    cases hoff : c.offset? rows cols with
    | none => simp [Cell.offset?_eq_none_iff.1 hoff]
    | some d =>
      have hstays : Cell.StaysOn rows cols c := by
        by_contra hoff'
        rw [Cell.offset?_eq_none_iff.2 hoff'] at hoff
        cases hoff
      cases s.pasteEdits? rows cols cells <;> simp [hstays]

/-- The writes of a paste are the contents of the source cells, each moved to its target. -/
theorem mem_pasteEdits? (h : s.pasteEdits? rows cols cells = some edits) (v : Content) :
    (d, v) ∈ edits ↔
      ∃ c ∈ cells, Cell.MovesTo rows cols c d ∧ v = (s.grid.get c).shift rows cols := by
  rw [mem_pasteEdits?_iff h]
  refine exists_congr fun c => and_congr_right fun _ => ?_
  rw [Cell.offset?_eq_some_iff]
  exact and_congr_right fun hmoves => by rw [moved_eq_shift hmoves]

/-- How many rows a paste moves its cells down. -/
def pasteRows (source : Range) (target : Cell) : Int :=
  (target.row.toNat : Int) - source.start.row.toNat

/-- How many columns a paste moves its cells to the right. -/
def pasteCols (source : Range) (target : Cell) : Int :=
  (target.col.toNat : Int) - source.start.col.toNat

/-- What a paste leaves of a sheet: the targets hold what their source cells held before, and nothing
else has changed but for the note that every subscriber has of it. -/
structure Pasted (s : Sheet) (source : Range) (rows cols : Int) (cells : List Cell) (s' : Sheet) :
    Prop where
  targets : ∀ c ∈ source.cells, ∃ d, Cell.MovesTo rows cols c d ∧
    s'.grid.get d = (s.grid.get c).shift rows cols
  others : ∀ d, (∀ c ∈ source.cells, ¬Cell.MovesTo rows cols c d) → s'.grid.get d = s.grid.get d
  styles : s'.styles = s.styles
  inboxes : s'.inboxes = s.inboxes.map (· ++ [cells])

theorem styles_notify (s : Sheet) (cells : List Cell) : (s.notify cells).styles = s.styles := by
  unfold notify
  split <;> rfl

/-- The writes of a paste, once taken note of, make a pasted sheet. -/
theorem pasted_noteEdits (h : s.pasteEdits? rows cols source.cells = some edits) :
    Pasted s source rows cols ((s.write edits).noteEdits edits).1
      ((s.write edits).noteEdits edits).2 := by
  have hstays := (exists_pasteEdits?_iff s source.cells).1 ⟨edits, h⟩
  constructor
  case targets =>
    intro c hc
    obtain ⟨d, hmoves⟩ := (hstays c hc).exists_movesTo
    refine ⟨d, hmoves, ?_⟩
    rw [grid_noteEdits]
    apply Grid.get_foldl_set
    · exact (mem_pasteEdits? h _).2 ⟨c, hc, hmoves, rfl⟩
    · intro w hw
      obtain ⟨c', -, hmoves', rfl⟩ := (mem_pasteEdits? h w).1 hw
      rw [hmoves'.injective hmoves]
  case others =>
    intro d hd
    rw [grid_noteEdits]
    apply Grid.get_foldl_set_of_forall_ne
    rintro ⟨d', v⟩ he rfl
    obtain ⟨c, hc, hmoves, -⟩ := (mem_pasteEdits? h v).1 he
    exact hd c hc hmoves
  case styles => exact styles_notify _ _
  case inboxes =>
    have hne : ((s.write edits).noteEdits edits).1 ≠ [] := by
      have hc := source.start_mem_cells
      obtain ⟨d, hmoves⟩ := (hstays source.start hc).exists_movesTo
      have hedit := (mem_pasteEdits? h _).2 ⟨source.start, hc, hmoves, rfl⟩
      apply List.ne_nil_of_mem
      exact Engine.mem_affected _ (List.mem_map_of_mem (f := Prod.fst) hedit)
    exact congrArg Sheet.inboxes (if_neg hne)

/-- A paste is refused if it is too large for the limit, or if a target lies off the grid. -/
theorem runPaste_refused_iff : (∃ e, (s.runPaste source target).1 = .error e) ↔
    s.engine.options.maxRangeCells < source.cellCount ∨ ∃ c ∈ source.cells,
      ¬Cell.StaysOn (pasteRows source target) (pasteCols source target) c := by
  have hstays : (∃ edits, s.pasteEdits? (pasteRows source target) (pasteCols source target)
      source.cells = some edits) ↔ _ := exists_pasteEdits?_iff s source.cells
  rcases s.runPaste_cases source target with ⟨e, hreason, hp⟩ | ⟨edits, hlimit, hedits, hp⟩
  · rw [hp]
    apply iff_of_true ⟨e, rfl⟩
    apply hreason.imp_right
    intro hnone
    by_contra hno
    push Not at hno
    obtain ⟨edits, hsome⟩ := hstays.2 hno
    cases hnone.symm.trans hsome
  · rw [hp]
    refine iff_of_false ?_ ?_
    · rintro ⟨e, ⟨⟩⟩
    · rintro (hlarge | ⟨c, hc, hoff⟩)
      · exact absurd hlarge (Nat.not_lt.2 hlimit)
      · exact hoff (hstays.1 ⟨edits, hedits⟩ c hc)

theorem cellCount_eq_size (hd : Cell.MovesTo rows cols source.stop d) (hinner : d.Inner)
    (hstart : Cell.StaysOn rows cols source.start) : source.cellCount = source.size := by
  obtain ⟨hrow, hcol⟩ := hd
  obtain ⟨⟨hrow₀, -⟩, hcol₀, -⟩ := hstart
  obtain ⟨hrow₁, hcol₁⟩ := hinner
  simp only [UInt32.size] at hrow₁ hcol₁
  have hrows : source.rowCount ≤ 2 ^ 32 - 1 := by
    unfold Range.rowCount
    omega
  have hcols : source.colCount ≤ 2 ^ 32 - 1 := by
    unfold Range.colCount
    omega
  apply Nat.min_eq_left
  calc source.size ≤ (2 ^ 32 - 1) * (2 ^ 32 - 1) := Nat.mul_le_mul hrows hcols
    _ ≤ Range.countLimit := by decide

/-- A paste is refused exactly if the source has too many cells or a target lies off the grid, and
then the sheet is as it was. Otherwise every target holds what its source cell held before. -/
theorem runPaste_spec
    (hinner : ∀ c ∈ source.cells, ∀ d,
      Cell.MovesTo (pasteRows source target) (pasteCols source target) c d → d.Inner) :
    ((∃ e, (s.runPaste source target).1 = .error e) ↔
      s.engine.options.maxRangeCells < source.size ∨ ∃ c ∈ source.cells,
        ¬Cell.StaysOn (pasteRows source target) (pasteCols source target) c) ∧
    (∀ e, (s.runPaste source target).1 = .error e → (s.runPaste source target).2 = s) ∧
    ∀ cells, (s.runPaste source target).1 = .ok cells →
      Pasted s source (pasteRows source target) (pasteCols source target) cells
        (s.runPaste source target).2 := by
  refine ⟨?_, fun e => runPaste_of_refused, ?_⟩
  · have hcount : source.cellCount ≤ source.size := Nat.min_le_left _ _
    rw [runPaste_refused_iff]
    constructor
    · rintro (hlarge | hoff)
      · exact .inl (Nat.lt_of_lt_of_le hlarge hcount)
      · exact .inr hoff
    · rintro (hlarge | hoff)
      · by_cases hstays : ∀ c ∈ source.cells,
            Cell.StaysOn (pasteRows source target) (pasteCols source target) c
        · obtain ⟨d, hd⟩ := (hstays source.stop source.stop_mem_cells).exists_movesTo
          have hsize : source.cellCount = source.size :=
            cellCount_eq_size hd (hinner _ source.stop_mem_cells d hd)
              (hstays source.start source.start_mem_cells)
          exact .inl (hsize ▸ hlarge)
        · push Not at hstays
          exact .inr hstays
      · exact .inr hoff
  · intro cells h
    rcases s.runPaste_cases source target with ⟨e, -, hp⟩ | ⟨edits, -, hedits, hp⟩
    · rw [hp] at h
      cases h
    · rw [hp] at h ⊢
      cases h
      exact pasted_noteEdits hedits

/-- A formula and the number below it are pasted one row down, over the number. -/
theorem runPaste_spec_overlapping :
    ∃ cells s', runPaste (ofGrid (.ofRows #[#[.text "=B1"], #[.number 2]]) .standard).subscribe
        (.ofCorners ⟨0, 0⟩ ⟨1, 0⟩) ⟨1, 0⟩ = (.ok cells, s') ∧
      s'.grid.get ⟨0, 0⟩ = .text "=B1" ∧ s'.grid.get ⟨1, 0⟩ = .text "=B2" ∧
      s'.grid.get ⟨2, 0⟩ = .number 2 ∧ s'.inboxes = [[cells]] := by
  generalize hs : (ofGrid (.ofRows #[#[.text "=B1"], #[.number 2]]) .standard).subscribe = s
  generalize hsource : Range.ofCorners ⟨0, 0⟩ ⟨1, 0⟩ = source
  have hcells : source.cells = [⟨0, 0⟩, ⟨1, 0⟩] := by
    rw [← hsource]
    decide
  have hrows : pasteRows source ⟨1, 0⟩ = 1 := by
    rw [← hsource]
    decide
  have hcols : pasteCols source ⟨1, 0⟩ = 0 := by
    rw [← hsource]
    decide
  have hfirst : ∀ d, Cell.MovesTo 1 0 ⟨0, 0⟩ d ↔ d = ⟨1, 0⟩ := fun d => by
    rw [← Cell.offset?_eq_some_iff, show Cell.offset? ⟨0, 0⟩ 1 0 = some ⟨1, 0⟩ by decide,
      Option.some.injEq, eq_comm]
  have hsecond : ∀ d, Cell.MovesTo 1 0 ⟨1, 0⟩ d ↔ d = ⟨2, 0⟩ := fun d => by
    rw [← Cell.offset?_eq_some_iff, show Cell.offset? ⟨1, 0⟩ 1 0 = some ⟨2, 0⟩ by decide,
      Option.some.injEq, eq_comm]
  have hspec := @runPaste_spec s source ⟨1, 0⟩ (by
    simp only [hcells, hrows, hcols, List.forall_mem_cons, hfirst, hsecond, forall_eq]
    exact ⟨by decide, by decide, nofun⟩)
  rw [hrows, hcols] at hspec
  obtain ⟨hrefused, -, hpasted⟩ := hspec
  cases hp : s.runPaste source ⟨1, 0⟩ with
  | mk answer s' =>
    rw [hp] at hrefused hpasted
    cases answer with
    | error e =>
      rcases hrefused.1 ⟨e, rfl⟩ with hlarge | hoff
      · rw [← hs, ← hsource] at hlarge
        exact absurd hlarge (by decide)
      · rw [hcells] at hoff
        exact absurd hoff (by decide)
    | ok cells =>
      have h := hpasted cells rfl
      have hformula : s.grid.get ⟨0, 0⟩ = .text "=B1" := by rw [← hs]; rfl
      have hnumber : s.grid.get ⟨1, 0⟩ = .number 2 := by rw [← hs]; rfl
      have hsource : ∀ c ∈ source.cells, ¬Cell.MovesTo 1 0 c ⟨0, 0⟩ := by
        simp only [hcells, List.forall_mem_cons, hfirst, hsecond]
        exact ⟨by decide, by decide, nofun⟩
      refine ⟨cells, s', rfl, ?_, ?_, ?_, ?_⟩
      · rw [h.others ⟨0, 0⟩ hsource, hformula]
      · obtain ⟨d, hd, hget⟩ := h.targets ⟨0, 0⟩ (by simp [hcells])
        rw [← (hfirst d).1 hd, hget, hformula]
        decide +kernel
      · obtain ⟨d, hd, hget⟩ := h.targets ⟨1, 0⟩ (by simp [hcells])
        rw [← (hsecond d).1 hd, hget, hnumber]
        rfl
      · rw [h.inboxes, ← hs]
        rfl

end Sheet

end Spreadsheet
