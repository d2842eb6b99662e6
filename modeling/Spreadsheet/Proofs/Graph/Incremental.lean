import Spreadsheet.Proofs.Graph.Edges

/-!
A graph kept up to date formula by formula. No operation leaves an entry empty, so the edges and the
skipped cells determine the graph; and they are those of the formulas that are left, in whatever
order these were entered. Main statement: after any edits a built graph is the graph built from the
edited formulas.
-/
namespace Spreadsheet.Graph

variable {g g' : Graph} {f : Formulas} {m m' : CellMap CellSet} {a b c d p : Cell} {limit : Nat}
  {entries : List (Cell × String)}

/-- No entry of the map is the empty set. -/
def Compact (m : CellMap CellSet) : Prop := ∀ c : Cell, m[c]? ≠ some ∅

theorem compact_empty : Compact ∅ := by simp [Compact]

theorem Compact.erase (h : Compact m) (c : Cell) : Compact (m.erase c) := by
  intro d
  rw [Std.ExtTreeMap.getElem?_erase]
  by_cases hcd : compare c d = .eq
  · simp [hcd]
  · simpa [hcd] using h d

theorem Compact.alter (h : Compact m) {change : Option CellSet → Option CellSet}
    (hchange : ∀ s, change s ≠ some ∅) (c : Cell) : Compact (m.alter c change) := by
  intro d
  rw [Std.ExtTreeMap.getElem?_alter]
  by_cases hcd : compare c d = .eq
  · simpa [hcd] using hchange m[c]?
  · simpa [hcd] using h d

theorem withCell_ne_empty (c : Cell) (s : Option CellSet) : withCell c s ≠ some ∅ := by
  simp [withCell]

theorem withoutCell_ne_empty (c : Cell) (s : Option CellSet) : withoutCell c s ≠ some ∅ := by
  intro h
  have hs := (Option.filter_eq_some_iff.1 h).2
  simp at hs

/-- The edges determine the map. -/
theorem Compact.ext (h : Compact m) (h' : Compact m') (hedge : ∀ a b, Edge m a b ↔ Edge m' a b) :
    m = m' := by
  apply Std.ExtTreeMap.ext_getElem?
  intro a
  have hset : m[a]?.getD ∅ = m'[a]?.getD ∅ := by
    apply Std.ExtTreeSet.ext_mem
    intro b
    rw [← edge_iff_mem_getD, ← edge_iff_mem_getD]
    exact hedge a b
  have ha := h a
  have ha' := h' a
  cases hs : m[a]? <;> cases hs' : m'[a]? <;> simp_all

/-- The two maps of edges are mirror images, and a cell without edges has no entry. -/
structure Tidy (g : Graph) : Prop where
  mirrored : g.Mirrored
  precedents : Compact g.precedents
  dependents : Compact g.dependents

theorem tidy_empty : empty.Tidy := ⟨mirrored_empty, compact_empty, compact_empty⟩

theorem Tidy.addEdge (h : g.Tidy) (p d : Cell) : (g.addEdge p d).Tidy where
  mirrored := h.mirrored.addEdge p d
  precedents := h.precedents.alter (withCell_ne_empty p) d
  dependents := h.dependents.alter (withCell_ne_empty d) p

theorem Compact.foldl_withoutCell (h : Compact m) (c : Cell) (ps : List Cell) :
    Compact (ps.foldl (fun d p => d.alter p (withoutCell c)) m) := by
  induction ps generalizing m with
  | nil => exact h
  | cons p ps ih => exact ih (h.alter (withoutCell_ne_empty c) p)

theorem Tidy.clearPrecedents (h : g.Tidy) (c : Cell) : (g.clearPrecedents c).Tidy where
  mirrored := h.mirrored.clearPrecedents c
  precedents := h.precedents.erase c
  dependents := h.dependents.foldl_withoutCell c (g.precedentsOf c)

theorem Tidy.foldl_addEdge (h : g.Tidy) (c : Cell) (ps : List Cell) :
    (ps.foldl (fun g p => g.addEdge p c) g).Tidy := by
  induction ps generalizing g with
  | nil => exact h
  | cons p ps ih => exact ih (h.addEdge p c)

theorem Tidy.addToken (h : g.Tidy) (limit : Nat) (c : Cell) (k : Formula.Token) :
    (addToken limit c g k).Tidy := by
  by_cases hlimit : limit < k.area.cellCount
  · rw [Graph.addToken, if_pos hlimit]
    exact ⟨h.mirrored, h.precedents, h.dependents⟩
  · rw [Graph.addToken, if_neg hlimit]
    exact h.foldl_addEdge c k.area.cells

theorem Tidy.setFormula (h : g.Tidy) (c : Cell) (text : Text) (limit : Nat) :
    (g.setFormula c text limit).Tidy := by
  refine List.foldlRecOn (Formula.tokens text) _ (h.clearPrecedents c) ?_
  intro g' h' k _
  exact h'.addToken limit c k

theorem tidy_ofEntries (entries : List (Cell × String)) (limit : Nat) :
    (ofEntries entries limit).Tidy := by
  refine List.foldlRecOn entries _ tidy_empty ?_
  intro g h e _
  exact h.setFormula e.1 e.2.toList limit

/-- The graph is that of the formulas: it has the edges that their texts name, and its skipped cells
are those with a range beyond the limit. -/
structure Mirrors (limit : Nat) (f : Formulas) (g : Graph) : Prop where
  tidy : g.Tidy
  reads_iff : ∀ a b, g.Reads a b ↔ ∃ s, f.get? a = some s ∧ Tracks limit s.toList b
  mem_skipped_iff : ∀ a, a ∈ g.skipped ↔ ∃ s, f.get? a = some s ∧ Skips limit s.toList

theorem Mirrors.unique (h : Mirrors limit f g) (h' : Mirrors limit f g') : g = g' := by
  have hreads : ∀ a b, g.Reads a b ↔ g'.Reads a b := fun a b =>
    (h.reads_iff a b).trans (h'.reads_iff a b).symm
  have hdependents : ∀ a b, Edge g.dependents a b ↔ Edge g'.dependents a b := by
    intro a b
    rw [h.tidy.mirrored b a, h'.tidy.mirrored b a, hreads]
  ext1
  · exact h.tidy.precedents.ext h'.tidy.precedents hreads
  · exact h.tidy.dependents.ext h'.tidy.dependents hdependents
  · apply Std.ExtTreeSet.ext_mem
    intro a
    exact (h.mem_skipped_iff a).trans (h'.mem_skipped_iff a).symm

/-- The entry of a cell is the set of the cells that its formula tracks, if there are any. -/
theorem Mirrors.precedentsOf?_eq_some_iff (h : Mirrors limit f g) {s : CellSet} :
    g.precedentsOf? c = some s ↔
      s ≠ ∅ ∧ ∀ b, b ∈ s ↔ ∃ text, f.get? c = some text ∧ Tracks limit text.toList b := by
  simp only [← h.reads_iff]
  constructor
  · intro hs
    refine ⟨fun hempty => h.tidy.precedents c (hempty ▸ hs), fun b => ?_⟩
    exact (edge_iff_of_getElem? hs).symm
  · rintro ⟨hne, hmem⟩
    cases hs : g.precedentsOf? c with
    | none =>
      refine absurd (Std.ExtTreeSet.ext_mem fun b => ?_) hne
      simp [hmem, Reads, not_edge_of_getElem? hs]
    | some t =>
      congr 1
      apply Std.ExtTreeSet.ext_mem
      intro b
      rw [hmem]
      exact (edge_iff_of_getElem? hs).symm

/-- In whatever order the formulas are entered, the graph is theirs. -/
theorem mirrors_ofEntries (h : entries.Perm f.entries) : Mirrors limit f (ofEntries entries limit) := by
  have hdistinct : entries.Pairwise fun x y => x.1 ≠ y.1 :=
    (h.pairwise_iff fun hxy => Ne.symm hxy).2 (pairwise_entries f)
  have hmem : ∀ a s, (a, s) ∈ entries ↔ f.get? a = some s := fun a s =>
    h.mem_iff.trans mem_entries
  refine ⟨tidy_ofEntries entries limit, fun a b => ?_, fun a => ?_⟩
  · rw [ofEntries, reads_foldl_setFormula hdistinct]
    simp [hmem]
  · rw [ofEntries, mem_skipped_foldl_setFormula hdistinct]
    simp [hmem, empty]

/-- Put a formula, or none, at a cell. -/
def edit (limit : Nat) (g : Graph) (e : Cell × Option String) : Graph :=
  match e.2 with
  | some s => g.setFormula e.1 s.toList limit
  | none => g.clearPrecedents e.1

theorem exists_get?_put {text : Option String} {P : String → Prop} :
    (∃ s, (f.put c text).get? a = some s ∧ P s) ↔
      a = c ∧ (∃ s, text = some s ∧ P s) ∨ a ≠ c ∧ ∃ s, f.get? a = some s ∧ P s := by
  rw [Formulas.get?_put]
  by_cases hac : a = c
  · simp [hac]
  · simp [hac, Ne.symm hac]

theorem Mirrors.edit (h : Mirrors limit f g) (e : Cell × Option String) :
    Mirrors limit (f.put e.1 e.2) (edit limit g e) := by
  obtain ⟨c, s⟩ := e
  cases s with
  | some s =>
    refine ⟨h.tidy.setFormula c s.toList limit, fun a b => ?_, fun a => ?_⟩
    · simp [Graph.edit, reads_setFormula, h.reads_iff, exists_get?_put]
    · simp [Graph.edit, mem_skipped_setFormula, h.mem_skipped_iff, exists_get?_put]
  | none =>
    refine ⟨h.tidy.clearPrecedents c, fun a b => ?_, fun a => ?_⟩
    · simp [Graph.edit, reads_clearPrecedents, h.reads_iff, exists_get?_put]
    · rw [Graph.edit, clearPrecedents, CellSet.mem_erase, h.mem_skipped_iff, exists_get?_put]
      simp

theorem Mirrors.foldl_edit (h : Mirrors limit f g) (edits : List (Cell × Option String)) :
    Mirrors limit (edits.foldl (fun f e => f.put e.1 e.2) f) (edits.foldl (Graph.edit limit) g) := by
  induction edits generalizing f g with
  | nil => exact h
  | cons e edits ih => exact ih (h.edit e)

/-- After any edits a graph built from formulas in any order is the one built, again in any order,
from the edited formulas. The entry of a cell is the set of the cells that the small enough tokens
of its formula cover, unless they cover none, and the skipped cells are those with a larger token. -/
theorem foldl_edit_eq_ofEntries (limit : Nat) (h : entries.Perm f.entries)
    (edits : List (Cell × Option String)) :
    let edited := edits.foldl (fun f e => f.put e.1 e.2) f
    let kept := edits.foldl (edit limit) (ofEntries entries limit)
    (∀ entries', entries'.Perm edited.entries → kept = ofEntries entries' limit) ∧
      (∀ c s, kept.precedentsOf? c = some s ↔
        s ≠ ∅ ∧ ∀ b, b ∈ s ↔ ∃ text, edited.get? c = some text ∧ Tracks limit text.toList b) ∧
      ∀ c, c ∈ kept.skipped ↔ ∃ text, edited.get? c = some text ∧ Skips limit text.toList := by
  intro edited kept
  have hkept : Mirrors limit edited kept := (mirrors_ofEntries h).foldl_edit edits
  refine ⟨fun entries' h' => ?_, fun c s => ?_, hkept.mem_skipped_iff⟩
  · exact hkept.unique (mirrors_ofEntries h')
  · exact hkept.precedentsOf?_eq_some_iff

/-- Two ranges that overlap, entered against the order of their cells. The one that is replaced
leaves the shared cell to the other, and the limit leaves out the range that takes its place. -/
theorem foldl_edit_eq_ofEntries_overlapping :
    let f := Formulas.ofList [(⟨0, 4⟩, "=SUM(A1:A2)"), (⟨0, 5⟩, "=SUM(A2:A3)")]
    let entered := [(⟨0, 5⟩, "=SUM(A2:A3)"), (⟨0, 4⟩, "=SUM(A1:A2)")]
    let edited := f.put ⟨0, 4⟩ (some "=SUM(A1:B2)+A3")
    let kept := edit 3 (ofEntries entered 3) (⟨0, 4⟩, some "=SUM(A1:B2)+A3")
    entered.Perm f.entries ∧ kept = ofEntries edited.entries 3 ∧
      kept.directDependents ⟨1, 0⟩ = [⟨0, 5⟩] ∧ kept.precedentsOf ⟨0, 4⟩ = [⟨2, 0⟩] ∧
      kept.skipped.toList = [⟨0, 4⟩] := by
  intro f entered edited kept
  have hperm : entered.Perm f.entries := by decide +kernel
  have hkept : kept = ofEntries edited.entries 3 :=
    (foldl_edit_eq_ofEntries 3 hperm [(⟨0, 4⟩, some "=SUM(A1:B2)+A3")]).1 _ (List.Perm.refl _)
  exact ⟨hperm, hkept, by decide +kernel, by decide +kernel, by decide +kernel⟩

end Spreadsheet.Graph
