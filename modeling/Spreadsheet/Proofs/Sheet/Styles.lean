import Mathlib.Data.Set.Card
import Spreadsheet.Proofs.Range.Cursor
import Spreadsheet.Proofs.Sheet.Paste

/-!
The styles of a sheet beside its contents. A cell has an entry exactly if its style is not the standard
one, whatever calls came before, so that counting entries counts styled cells. Styles and contents go
their own ways. Main statement: after any run the styles are those that the calls for styles alone make,
and everything else is what the other calls alone make.
-/
namespace Spreadsheet.Sheet

variable {s : Sheet} {c d : Cell} {m : CellMap Style} {style : Style} {f : Style → Style}
  {r : Range}

/-- What can be asked of a sheet that changes it. -/
inductive Call where
  | setStyle (c : Cell) (style : Style)
  | applyStyle (r : Range) (f : Style → Style)
  | setValue (c : Cell) (v : Content)
  | paste (source : Range) (target : Cell)
  | subscribe

/-- Whether a call is one for styles. -/
def Call.isStyling : Call → Bool
  | .setStyle _ _ => true
  | .applyStyle _ _ => true
  | .setValue _ _ => false
  | .paste _ _ => false
  | .subscribe => false

/-- The sheet after a call. -/
def perform (s : Sheet) : Call → Sheet
  | .setStyle c style => s.setStyle c style
  | .applyStyle r f => s.applyStyle r f
  | .setValue c v => (s.setValue c v).2
  | .paste source target => (s.runPaste source target).2
  | .subscribe => s.subscribe

def performAll (s : Sheet) (calls : List Call) : Sheet := calls.foldl perform s

/-- The sheet with other styles. -/
def restyle (s : Sheet) (m : CellMap Style) : Sheet := { s with styles := m }

section Canonical

/-- The standard style is never stored. -/
def Canonical (m : CellMap Style) : Prop := ∀ c : Cell, m[c]? ≠ some .standard

theorem getElem?_setStyle : (s.setStyle c style).styles[d]? =
    if c = d then (if style = .standard then none else some style) else s.styles[d]? := by
  unfold setStyle
  by_cases hstyle : style = .standard
  · simp [Style.isStandard_iff, hstyle, Std.ExtTreeMap.getElem?_erase]
  · simp [Style.isStandard_iff, hstyle, Std.ExtTreeMap.getElem?_insert]

theorem Canonical.setStyle (h : Canonical s.styles) (c : Cell) (style : Style) :
    Canonical (s.setStyle c style).styles := by
  intro d
  rw [getElem?_setStyle]
  by_cases hc : c = d
  · rw [if_pos hc]
    split <;> simp_all
  · rw [if_neg hc]
    exact h d

theorem styleAt_setStyle :
    (s.setStyle c style).styleAt d = if d = c then style else s.styleAt d := by
  rw [styleAt, getElem?_setStyle, styleAt]
  by_cases hc : d = c
  · rw [if_pos hc, if_pos hc.symm]
    split <;> simp_all
  · rw [if_neg hc, if_neg (Ne.symm hc)]

theorem Canonical.foldl_setStyle (h : Canonical s.styles) (f : Style → Style) (cells : List Cell) :
    Canonical (cells.foldl (fun s c => s.setStyle c (f (s.styleAt c))) s).styles := by
  induction cells generalizing s with
  | nil => exact h
  | cons c cells ih => exact ih (h.setStyle c _)

/-- Each cell is restyled from the style that it had before the first one was. -/
theorem styleAt_foldl_setStyle {cells : List Cell} (hcells : cells.Nodup) :
    (cells.foldl (fun s c => s.setStyle c (f (s.styleAt c))) s).styleAt d =
      if d ∈ cells then f (s.styleAt d) else s.styleAt d := by
  induction cells generalizing s with
  | nil => rfl
  | cons c cells ih =>
    obtain ⟨hc, hcells⟩ := List.nodup_cons.1 hcells
    rw [List.foldl_cons, ih hcells, styleAt_setStyle]
    by_cases hd : d = c
    · subst d
      rw [if_neg hc, if_pos rfl, if_pos List.mem_cons_self]
    · simp only [if_neg hd, List.mem_cons, or_iff_right hd]

theorem styleAt_applyStyle :
    (s.applyStyle r f).styleAt d = if r.contains d = true then f (s.styleAt d) else s.styleAt d := by
  rw [applyStyle, styleAt_foldl_setStyle r.nodup_cells]
  simp only [Range.mem_cells]

theorem Canonical.mem_iff (h : Canonical s.styles) : c ∈ s.styles ↔ s.styleAt c ≠ .standard := by
  rw [Std.ExtTreeMap.mem_iff_isSome_getElem?, styleAt]
  cases hs : s.styles[c]? with
  | none => simp
  | some style =>
    have hne : style ≠ .standard := by
      rintro rfl
      exact h c hs
    simpa using hne

theorem Canonical.encard_eq (h : Canonical s.styles) :
    {c | s.styleAt c ≠ .standard}.encard = s.styledCount := by
  have hkeys : {c | s.styleAt c ≠ .standard} = (s.styles.keys.toFinset : Set Cell) := by
    ext c
    simp [h.mem_iff]
  have hnodup : s.styles.keys.Nodup := s.styles.distinct_keys.imp (by simp)
  rw [hkeys, Set.encard_coe_eq_coe_finsetCard, List.toFinset_card_of_nodup hnodup,
    Std.ExtTreeMap.length_keys, styledCount]

end Canonical

section Frame

@[simp] theorem styles_restyle : (s.restyle m).styles = m := rfl

theorem exists_foldl_setStyle (s : Sheet) (f : Style → Style) (cells : List Cell) :
    ∃ m, cells.foldl (fun s c => s.setStyle c (f (s.styleAt c))) s = s.restyle m := by
  induction cells generalizing s with
  | nil => exact ⟨s.styles, rfl⟩
  | cons c cells ih =>
    obtain ⟨m, hm⟩ := ih (s.setStyle c (f (s.styleAt c)))
    exact ⟨m, hm⟩

theorem perform_of_styling {call : Call} (h : call.isStyling = true) (s : Sheet) :
    s.perform call = s.restyle (s.perform call).styles := by
  cases call with
  | setStyle c style => rfl
  | applyStyle r f =>
    obtain ⟨m, hm⟩ := exists_foldl_setStyle s f r.cells
    rw [perform, applyStyle, hm, styles_restyle]
  | _ => cases h

/-- What a call for styles makes of them depends on nothing else. -/
theorem styles_perform_congr {call : Call} (h : call.isStyling = true) {s s' : Sheet}
    (hs : s.styles = s'.styles) : (s.perform call).styles = (s'.perform call).styles := by
  have hset {s s' : Sheet} (hs : s.styles = s'.styles) (c : Cell) (style : Style) :
      (s.setStyle c style).styles = (s'.setStyle c style).styles := by
    unfold setStyle
    rw [hs]
  cases call with
  | setStyle c style => exact hset hs c style
  | applyStyle r f =>
    change (r.cells.foldl _ s).styles = (r.cells.foldl _ s').styles
    induction r.cells generalizing s s' with
    | nil => exact hs
    | cons c cells ih =>
      have hc : s.styleAt c = s'.styleAt c := by rw [styleAt, styleAt, hs]
      rw [List.foldl_cons, List.foldl_cons, hc]
      exact ih (hset hs c _)
  | _ => cases h

theorem notify_restyle (s : Sheet) (m : CellMap Style) (cells : List Cell) :
    (s.restyle m).notify cells = (s.notify cells).restyle m := by
  unfold notify
  split <;> rfl

theorem noteEdits_restyle (s : Sheet) (m : CellMap Style) (edits : List (Cell × Content)) :
    (s.restyle m).noteEdits edits =
      ((s.noteEdits edits).1, (s.noteEdits edits).2.restyle m) := by
  have hnotify := notify_restyle { s with engine := s.engine.apply edits } m
    (s.noteEdits edits).1
  exact Prod.ext rfl hnotify

theorem pasteEdits?_restyle (s : Sheet) (m : CellMap Style) (rows cols : Int)
    (cells : List Cell) :
    (s.restyle m).pasteEdits? rows cols cells = s.pasteEdits? rows cols cells := by
  induction cells with
  | nil => rfl
  | cons c cells ih =>
    rw [pasteEdits?, pasteEdits?, ih]
    rfl

theorem runPaste_restyle (s : Sheet) (m : CellMap Style) (source : Range) (target : Cell) :
    (s.restyle m).runPaste source target =
      ((s.runPaste source target).1, (s.runPaste source target).2.restyle m) := by
  rw [runPaste_eq, runPaste_eq, pasteEdits?_restyle]
  change (if s.engine.options.maxRangeCells < source.cellCount then _ else _) = _
  split
  · rfl
  · split
    · rfl
    · rename_i edits _
      have hnote := noteEdits_restyle (s.write edits) m edits
      exact congrArg (fun r => (Except.ok r.1, r.2)) hnote

/-- A call for contents goes on as before where the styles are others. -/
theorem perform_restyle {call : Call} (h : call.isStyling = false) (s : Sheet)
    (m : CellMap Style) : (s.restyle m).perform call = (s.perform call).restyle m := by
  cases call with
  | setValue c v => exact congrArg Prod.snd (noteEdits_restyle (s.write [(c, v)]) m [(c, v)])
  | paste source target => exact congrArg Prod.snd (runPaste_restyle s m source target)
  | subscribe => rfl
  | _ => cases h

theorem styles_perform {call : Call} (h : call.isStyling = false) (s : Sheet) :
    (s.perform call).styles = s.styles := by
  have hrestyle : s.perform call = (s.perform call).restyle s.styles :=
    perform_restyle h s s.styles
  rw [hrestyle, styles_restyle]

end Frame

section Run

theorem performAll_concat (s : Sheet) (calls : List Call) (call : Call) :
    s.performAll (calls ++ [call]) = (s.performAll calls).perform call := by
  unfold performAll
  rw [List.foldl_append]
  rfl

theorem Canonical.perform (h : Canonical s.styles) (call : Call) :
    Canonical (s.perform call).styles := by
  cases hcall : call.isStyling with
  | false => rwa [styles_perform hcall]
  | true =>
    cases call with
    | setStyle c style => exact h.setStyle c style
    | applyStyle r f => exact h.foldl_setStyle f r.cells
    | _ => cases hcall

theorem Canonical.performAll (h : Canonical s.styles) (calls : List Call) :
    Canonical (s.performAll calls).styles := by
  induction calls using List.reverseRecOn with
  | nil => exact h
  | append_singleton calls call ih =>
    rw [performAll_concat]
    exact ih.perform call

/-- A run is that of its calls for contents, with the styles that its calls for styles make. -/
theorem performAll_eq_restyle (s : Sheet) (calls : List Call) :
    s.performAll calls = (s.performAll (calls.filter (!·.isStyling))).restyle
      (s.performAll (calls.filter Call.isStyling)).styles := by
  induction calls using List.reverseRecOn with
  | nil => rfl
  | append_singleton calls call ih =>
    rw [List.filter_append, List.filter_append, performAll_concat]
    cases hcall : call.isStyling with
    | false =>
      have hin : [call].filter (!·.isStyling) = [call] := by simp [hcall]
      have hout : [call].filter Call.isStyling = [] := by simp [hcall]
      rw [hin, hout, List.append_nil, performAll_concat, ih, perform_restyle hcall]
    | true =>
      have hin : [call].filter Call.isStyling = [call] := by simp [hcall]
      have hout : [call].filter (!·.isStyling) = [] := by simp [hcall]
      have hstyles : (s.performAll calls).styles =
          (s.performAll (calls.filter Call.isStyling)).styles := by rw [ih, styles_restyle]
      rw [hin, hout, List.append_nil, performAll_concat, perform_of_styling hcall,
        styles_perform_congr hcall hstyles, ih]
      rfl

end Run

/-- After any run the standard style is nowhere stored, so that the stored styles count the styled
cells. Setting a style and changing the styles of a range do so to the cells named and to no other,
and change nothing that is shown; an edit, a paste and a refused paste change no style. So the styles
are those that the calls for styles alone make, and what is shown is what the other calls alone make. -/
theorem styles_performAll (g : Grid) (o : Options) (calls : List Call) :
    let s := (ofGrid g o).performAll calls
    (∀ c : Cell, s.styles[c]? ≠ some .standard) ∧
      {c | s.styleAt c ≠ .standard}.encard = s.styledCount ∧
      (∀ c style d, (s.setStyle c style).styleAt d = if d = c then style else s.styleAt d) ∧
      (∀ r f d, (s.applyStyle r f).styleAt d =
        if r.contains d = true then f (s.styleAt d) else s.styleAt d) ∧
      (∀ c v, (s.setValue c v).2.styles = s.styles) ∧
      (∀ source target, (s.runPaste source target).2.styles = s.styles) ∧
      (∀ c style, (s.setStyle c style).display = s.display ∧
        (s.setStyle c style).displayAll = s.displayAll) ∧
      (∀ r f, (s.applyStyle r f).display = s.display ∧
        (s.applyStyle r f).displayAll = s.displayAll) ∧
      s.styles = ((ofGrid g o).performAll (calls.filter Call.isStyling)).styles ∧
      s.display = ((ofGrid g o).performAll (calls.filter (!·.isStyling))).display ∧
      s.displayAll = ((ofGrid g o).performAll (calls.filter (!·.isStyling))).displayAll := by
  intro s
  have hempty : Canonical (ofGrid g o).styles := fun c => by simp [ofGrid]
  have hcanonical : Canonical s.styles := hempty.performAll calls
  have hrun := performAll_eq_restyle (ofGrid g o) calls
  have hvalue (c : Cell) (v : Content) : (s.setValue c v).2.styles = s.styles :=
    styles_perform (show (Call.setValue c v).isStyling = false from rfl) s
  have hpaste (source : Range) (target : Cell) :
      (s.runPaste source target).2.styles = s.styles :=
    styles_perform (show (Call.paste source target).isStyling = false from rfl) s
  have hrange (r : Range) (f : Style → Style) :
      s.applyStyle r f = s.restyle (s.applyStyle r f).styles :=
    perform_of_styling (show (Call.applyStyle r f).isStyling = true from rfl) s
  refine ⟨hcanonical, hcanonical.encard_eq, fun _ _ _ => styleAt_setStyle,
    fun _ _ _ => styleAt_applyStyle, hvalue, hpaste, fun _ _ => ⟨rfl, rfl⟩, fun r f => ?_,
    (congrArg Sheet.styles hrun :), (congrArg Sheet.display hrun :),
    (congrArg Sheet.displayAll hrun :)⟩
  rw [hrange]
  exact ⟨rfl, rfl⟩

/-- Four cells become bold, and one of them plain again. -/
example :
    let bold (b : Bool) (style : Style) := { style with bold := b }
    let s := (ofGrid .empty .standard).performAll
      [.applyStyle (.ofCorners ⟨0, 0⟩ ⟨1, 1⟩) (bold true),
        .applyStyle (.single ⟨1, 0⟩) (bold false)]
    s.styledCount = 3 ∧ (s.styleAt ⟨1, 0⟩).isStandard = true := by
  decide +kernel

end Spreadsheet.Sheet
