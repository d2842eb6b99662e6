import Mathlib.Data.List.Basic
import Mathlib.Logic.Relation
import Spreadsheet.Proofs.Engine
import Spreadsheet.Proofs.Reference
import Spreadsheet.Sheet

/-!
Runs of a sheet. Whatever edits and pastes a sheet has seen, its engine is in step with its grid:
it is the engine of a sheet made from that grid. Each call keeps this, a refused paste because it is
refused before it changes anything.
-/
namespace Spreadsheet.Sheet

open Relation

variable {s s' : Sheet} {c : Cell} {v : Content} {o : Options} {edits : List (Cell × Content)}

/-- A call on a sheet: an edit, a paste, or a paste that is refused. -/
inductive Step : Sheet → Sheet → Prop
  | setValue {s : Sheet} {c : Cell} (hc : c.Inner) (v : Content) : Step s (s.setValue c v).2
  | paste {s : Sheet} {source : Range} {target : Cell}
      (hrow : target.row.toNat + source.rowCount < UInt32.size)
      (hcol : target.col.toNat + source.colCount < UInt32.size) :
      Step s (s.runPaste source target).2
  | refused {s : Sheet} {source : Range} {target : Cell} {e : SheetError}
      (hp : (s.runPaste source target).1 = .error e) : Step s (s.runPaste source target).2

def Run : Sheet → Sheet → Prop := ReflTransGen Step

@[simp] theorem grid_notify (s : Sheet) (cells : List Cell) : (s.notify cells).grid = s.grid := by
  unfold notify
  split <;> rfl

@[simp] theorem engine_notify (s : Sheet) (cells : List Cell) :
    (s.notify cells).engine = s.engine := by
  unfold notify
  split <;> rfl

theorem grid_noteEdits (s : Sheet) (edits : List (Cell × Content)) :
    (s.noteEdits edits).2.grid = s.grid := grid_notify _ _

theorem engine_noteEdits (s : Sheet) (edits : List (Cell × Content)) :
    (s.noteEdits edits).2.engine = s.engine.apply edits := engine_notify _ _

theorem grid_setValue (s : Sheet) (c : Cell) (v : Content) :
    (s.setValue c v).2.grid = s.grid.set c v := grid_noteEdits _ _

theorem engine_setValue (s : Sheet) (c : Cell) (v : Content) :
    (s.setValue c v).2.engine = s.engine.apply [(c, v)] := engine_noteEdits _ _

theorem cells_setValue (s : Sheet) (c : Cell) (v : Content) :
    (s.setValue c v).1 = (s.setValue c v).2.engine.affected [c] := by
  rw [engine_setValue]
  rfl

/-- The engine is that of a sheet made from the grid. -/
structure Synced (o : Options) (s : Sheet) : Prop where
  bounded : s.grid.Bounded
  engine_eq : s.engine = (ofGrid s.grid o).engine

theorem Synced.noteEdits (h : s.Synced o) (hin : ∀ e ∈ edits, e.1.Inner) :
    ((s.write edits).noteEdits edits).2.Synced o where
  bounded := by
    rw [grid_noteEdits]
    exact h.bounded.foldl_set hin
  engine_eq := by
    rw [grid_noteEdits, engine_noteEdits]
    exact (congrArg (·.apply edits) h.engine_eq).trans (Engine.apply_load o h.bounded hin)

theorem Synced.setValue (h : s.Synced o) (hc : c.Inner) (v : Content) :
    (s.setValue c v).2.Synced o := by
  refine h.noteEdits fun e he => ?_
  obtain rfl := List.mem_singleton.1 he
  exact hc

/-- The writes of a paste are at the cells of the source, moved, and write what the cells hold. -/
theorem mem_pasteEdits?_iff {rows cols : Int} {cells : List Cell}
    (h : s.pasteEdits? rows cols cells = some edits) {e : Cell × Content} :
    e ∈ edits ↔
      ∃ c ∈ cells, c.offset? rows cols = some e.1 ∧ e.2 = moved c e.1 (s.grid.get c) := by
  induction cells generalizing edits with
  | nil =>
    obtain rfl := Option.some.inj h
    simp
  | cons c cells ih =>
    obtain ⟨target, ht, h⟩ := Option.bind_eq_some_iff.1 h
    obtain ⟨edits', hedits', h⟩ := Option.bind_eq_some_iff.1 h
    obtain rfl := Option.some.inj h
    rw [List.mem_cons, ih hedits', List.exists_mem_cons_iff]
    apply or_congr_left
    constructor
    · rintro rfl
      exact ⟨ht, rfl⟩
    · rintro ⟨htarget, hv⟩
      obtain rfl : target = e.1 := Option.some.inj (ht.symm.trans htarget)
      exact Prod.ext rfl hv

theorem runPaste_eq (s : Sheet) (source : Range) (target : Cell) : s.runPaste source target =
    if s.engine.options.maxRangeCells < source.cellCount then
      (.error (.pasteTooLarge source s.engine.options.maxRangeCells), s)
    else match s.pasteEdits? ((target.row.toNat : Int) - source.start.row.toNat)
        ((target.col.toNat : Int) - source.start.col.toNat) source.cells with
      | none => (.error (.pasteOffGrid source target), s)
      | some edits =>
        (.ok ((s.write edits).noteEdits edits).1, ((s.write edits).noteEdits edits).2) := by
  change StateT.run (ExceptT.run
    (if s.engine.options.maxRangeCells < source.cellCount then _ else _)) s = _
  split
  · rfl
  · change StateT.run (ExceptT.run (match s.pasteEdits? _ _ source.cells with
      | none => _
      | some edits => _)) s = _
    split <;> rfl

/-- A paste is refused before it writes anything, or it takes note of its writes. -/
theorem runPaste_cases (s : Sheet) (source : Range) (target : Cell) :
    let edits? := s.pasteEdits? ((target.row.toNat : Int) - source.start.row.toNat)
      ((target.col.toNat : Int) - source.start.col.toNat) source.cells
    (∃ e, (s.engine.options.maxRangeCells < source.cellCount ∨ edits? = none) ∧
      s.runPaste source target = (.error e, s)) ∨
    ∃ edits, source.cellCount ≤ s.engine.options.maxRangeCells ∧ edits? = some edits ∧
      s.runPaste source target =
        (.ok ((s.write edits).noteEdits edits).1, ((s.write edits).noteEdits edits).2) := by
  intro edits?
  rw [runPaste_eq]
  split
  · rename_i hlarge
    exact .inl ⟨_, .inl hlarge, rfl⟩
  · rename_i hlimit
    split
    · rename_i hnone
      exact .inl ⟨_, .inr hnone, rfl⟩
    · rename_i edits hedits
      exact .inr ⟨edits, Nat.not_lt.1 hlimit, hedits, rfl⟩

theorem runPaste_of_refused {source : Range} {target : Cell} {e : SheetError}
    (h : (s.runPaste source target).1 = .error e) : (s.runPaste source target).2 = s := by
  rcases s.runPaste_cases source target with ⟨e', -, hp⟩ | ⟨edits, -, -, hp⟩
  · rw [hp]
  · rw [hp] at h
    cases h

theorem Synced.runPaste (h : s.Synced o) {source : Range} {target : Cell}
    (hrow : target.row.toNat + source.rowCount < UInt32.size)
    (hcol : target.col.toNat + source.colCount < UInt32.size) :
    (s.runPaste source target).2.Synced o := by
  rcases s.runPaste_cases source target with ⟨e, -, hp⟩ | ⟨edits, -, hedits, hp⟩
  all_goals rw [hp]
  · exact h
  · apply h.noteEdits
    intro e he
    obtain ⟨c, hc, hoff, -⟩ := (mem_pasteEdits?_iff hedits).1 he
    obtain ⟨hr, hc'⟩ := Cell.offset?_eq_some_iff.1 hoff
    have hin := Range.contains_iff.1 (Range.mem_cells.1 hc)
    unfold Range.rowCount at hrow
    unfold Range.colCount at hcol
    constructor <;> omega

theorem Synced.step (h : s.Synced o) (hstep : Step s s') : s'.Synced o := by
  cases hstep with
  | setValue hc v => exact h.setValue hc v
  | paste hrow hcol => exact h.runPaste hrow hcol
  | refused hp => rwa [runPaste_of_refused hp]

theorem Synced.run (h : s.Synced o) (hrun : Run s s') : s'.Synced o := by
  induction hrun with
  | refl => exact h
  | tail _ hstep ih => exact ih.step hstep

theorem synced_ofGrid {g : Grid} (hg : g.Built) (o : Options) : (ofGrid g o).Synced o :=
  ⟨hg.bounded, rfl⟩

/-- After any run the engine is that of a new sheet made from the resulting grid. Its formulas are
those of the cells. -/
theorem engine_eq_ofGrid {g : Grid} (hg : g.Built) (o : Options) (hrun : Run (ofGrid g o) s) :
    s.engine = (ofGrid s.grid o).engine ∧
      ∀ c, s.engine.formulas.get? c = (s.grid.get c).formula? := by
  have h := (synced_ofGrid hg o).run hrun
  refine ⟨h.engine_eq, fun c => ?_⟩
  rw [h.engine_eq]
  exact Engine.get?_formulasOf h.bounded c

/-- A formula is written beside a number and pasted one row down. -/
theorem engine_eq_ofGrid_pasted :
    ∃ s, Run (ofGrid (.ofRows #[#[.number 1]]) .standard) s ∧
      s.engine = (ofGrid s.grid .standard).engine ∧
      ∀ c, s.engine.formulas.get? c = (s.grid.get c).formula? := by
  have hg : (Grid.ofRows #[#[.number 1]]).Built := .ofRows _ (by decide) (by decide)
  have hset : Step (ofGrid (.ofRows #[#[.number 1]]) .standard) _ :=
    .setValue (c := ⟨0, 1⟩) (by decide) (.text "=A1+1")
  have hpaste := @Step.paste ((ofGrid (.ofRows #[#[.number 1]]) .standard).setValue ⟨0, 1⟩
    (.text "=A1+1")).2 (.single ⟨0, 1⟩) ⟨1, 1⟩ (by decide) (by decide)
  have hrun : Run _ _ := (ReflTransGen.single hset).tail hpaste
  exact ⟨_, hrun, engine_eq_ofGrid hg .standard hrun⟩

end Spreadsheet.Sheet
