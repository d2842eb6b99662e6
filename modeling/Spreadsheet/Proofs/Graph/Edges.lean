import Spreadsheet.Proofs.Graph.Path

/-!
What each operation on a graph does to its edges. An operation changes the precedents of one cell
only, and keeps the two maps of edges mirror images. From this follow the edges of the graph of a
formula map: a cell reads the cells that the small enough tokens of its formula cover.
-/
namespace Spreadsheet.Graph

open Relation

variable {g : Graph} {a b c p : Cell}

/-- The formula of `a` reads `b`. -/
def Reads (g : Graph) (a b : Cell) : Prop := Edge g.precedents a b

/-- An edge stands in both maps or in none. -/
def Mirrored (g : Graph) : Prop := ∀ a b, Edge g.dependents b a ↔ g.Reads a b

theorem edge_alter_withCell {m : CellMap CellSet} {c d : Cell} :
    Edge (m.alter c (withCell d)) a b ↔ a = c ∧ b = d ∨ Edge m a b := by
  simp only [edge_iff_mem_getD, Std.ExtTreeMap.getElem?_alter,
    Std.LawfulEqCmp.compare_eq_iff_eq]
  by_cases hac : a = c
  · subst a
    simp [withCell, @eq_comm _ b d]
  · simp [hac, Ne.symm hac]

theorem edge_alter_withoutCell {m : CellMap CellSet} {c d : Cell} :
    Edge (m.alter c (withoutCell d)) a b ↔ Edge m a b ∧ ¬(a = c ∧ b = d) := by
  simp only [edge_iff_mem_getD, Std.ExtTreeMap.getElem?_alter,
    Std.LawfulEqCmp.compare_eq_iff_eq]
  by_cases hac : a = c
  · subst a
    cases h : m[c]? with
    | none => simp [withoutCell]
    | some s =>
      by_cases he : s.erase d = ∅
      · have hb : b ∈ s.erase d ↔ False := by simp [he]
        rw [CellSet.mem_erase] at hb
        simp [withoutCell, he]
        grind
      · simp [withoutCell, he, Option.filter]
        grind
  · simp [hac, Ne.symm hac]

@[simp] theorem not_reads_empty : ¬empty.Reads a b := by simp [Reads, Edge, empty]

theorem mirrored_empty : empty.Mirrored := by simp [Mirrored, Reads, Edge, empty]

theorem reads_addEdge {d : Cell} : (g.addEdge p d).Reads a b ↔ a = d ∧ b = p ∨ g.Reads a b :=
  edge_alter_withCell

theorem Mirrored.addEdge (hg : g.Mirrored) (p d : Cell) : (g.addEdge p d).Mirrored := by
  intro a b
  rw [reads_addEdge, ← hg a b]
  exact edge_alter_withCell.trans (by rw [and_comm])

theorem reads_clearPrecedents : (g.clearPrecedents c).Reads a b ↔ a ≠ c ∧ g.Reads a b :=
  edge_erase

theorem mem_precedentsOf : b ∈ g.precedentsOf a ↔ g.Reads a b := by
  rw [precedentsOf, Std.ExtTreeSet.mem_toList, Reads, edge_iff_mem_getD]

theorem edge_foldl_withoutCell (m : CellMap CellSet) (ps : List Cell) :
    Edge (ps.foldl (fun d p => d.alter p (withoutCell c)) m) b a ↔
      Edge m b a ∧ ¬(b ∈ ps ∧ a = c) := by
  induction ps generalizing m with
  | nil => simp
  | cons p ps ih =>
    rw [List.foldl_cons, ih, edge_alter_withoutCell, List.mem_cons]
    grind

theorem Mirrored.clearPrecedents (hg : g.Mirrored) (c : Cell) : (g.clearPrecedents c).Mirrored := by
  intro a b
  rw [reads_clearPrecedents, ← hg a b]
  refine (edge_foldl_withoutCell g.dependents (g.precedentsOf c)).trans ?_
  rw [mem_precedentsOf]
  by_cases ha : a = c
  · subst a
    simp [hg c b]
  · simp [ha]

/-- Some token of the text that is not too large covers the cell. -/
def Tracks (limit : Nat) (text : Text) (b : Cell) : Prop :=
  ∃ k ∈ Formula.tokens text, k.area.cellCount ≤ limit ∧ b ∈ k.area.cells

/-- Some token of the text is too large to be tracked. -/
def Skips (limit : Nat) (text : Text) : Prop :=
  ∃ k ∈ Formula.tokens text, limit < k.area.cellCount

theorem reads_foldl_addEdge (ps : List Cell) :
    (ps.foldl (fun g p => g.addEdge p c) g).Reads a b ↔ a = c ∧ b ∈ ps ∨ g.Reads a b := by
  induction ps generalizing g with
  | nil => simp
  | cons p ps ih =>
    rw [List.foldl_cons, ih, reads_addEdge, List.mem_cons]
    grind

theorem Mirrored.foldl_addEdge (hg : g.Mirrored) (ps : List Cell) :
    (ps.foldl (fun g p => g.addEdge p c) g).Mirrored := by
  induction ps generalizing g with
  | nil => exact hg
  | cons p ps ih => exact ih (hg.addEdge p c)

theorem skipped_foldl_addEdge (ps : List Cell) :
    (ps.foldl (fun g p => g.addEdge p c) g).skipped = g.skipped := by
  induction ps generalizing g with
  | nil => rfl
  | cons p ps ih => rw [List.foldl_cons, ih, addEdge]

section Tokens

variable {limit : Nat} {k : Formula.Token} {ks : List Formula.Token}

theorem reads_addToken : (addToken limit c g k).Reads a b ↔
    a = c ∧ (k.area.cellCount ≤ limit ∧ b ∈ k.area.cells) ∨ g.Reads a b := by
  unfold addToken
  split
  · rename_i h
    simp [Reads, Nat.not_le.2 h]
  · rename_i h
    simp [reads_foldl_addEdge, Nat.not_lt.1 h]

theorem Mirrored.addToken (hg : g.Mirrored) (limit : Nat) (c : Cell) (k : Formula.Token) :
    (addToken limit c g k).Mirrored := by
  unfold Graph.addToken
  split
  · exact hg
  · exact hg.foldl_addEdge _

theorem mem_skipped_addToken : a ∈ (addToken limit c g k).skipped ↔
    a = c ∧ limit < k.area.cellCount ∨ a ∈ g.skipped := by
  unfold addToken
  split
  · rename_i h
    simp [h, @eq_comm _ a c]
  · rename_i h
    simp [skipped_foldl_addEdge, h]

/-- What one token adds for the reading cell, several tokens add together. -/
theorem foldl_addToken_iff {P : Graph → Prop} {Q : Formula.Token → Prop}
    (hstep : ∀ g k, P (addToken limit c g k) ↔ a = c ∧ Q k ∨ P g) :
    P (ks.foldl (addToken limit c) g) ↔ a = c ∧ (∃ k ∈ ks, Q k) ∨ P g := by
  induction ks generalizing g with
  | nil => simp
  | cons k ks ih =>
    rw [List.foldl_cons, ih, hstep]
    simp only [List.mem_cons, exists_eq_or_imp]
    grind

theorem reads_foldl_addToken : (ks.foldl (addToken limit c) g).Reads a b ↔
    a = c ∧ (∃ k ∈ ks, k.area.cellCount ≤ limit ∧ b ∈ k.area.cells) ∨ g.Reads a b :=
  foldl_addToken_iff (P := fun g => g.Reads a b) fun _ _ => reads_addToken

theorem mem_skipped_foldl_addToken : a ∈ (ks.foldl (addToken limit c) g).skipped ↔
    a = c ∧ (∃ k ∈ ks, limit < k.area.cellCount) ∨ a ∈ g.skipped :=
  foldl_addToken_iff (P := fun g => a ∈ g.skipped) fun _ _ => mem_skipped_addToken

end Tokens

theorem Mirrored.setFormula (hg : g.Mirrored) (c : Cell) (text : Text) (limit : Nat) :
    (g.setFormula c text limit).Mirrored := by
  refine List.foldlRecOn (Formula.tokens text) _ (hg.clearPrecedents c) ?_
  intro g' h' k _
  exact h'.addToken limit c k

theorem reads_setFormula {text : Text} {limit : Nat} : (g.setFormula c text limit).Reads a b ↔
    a = c ∧ Tracks limit text b ∨ a ≠ c ∧ g.Reads a b := by
  rw [setFormula, reads_foldl_addToken, reads_clearPrecedents, Tracks]

theorem mem_skipped_setFormula {text : Text} {limit : Nat} :
    a ∈ (g.setFormula c text limit).skipped ↔ a = c ∧ Skips limit text ∨ a ≠ c ∧ a ∈ g.skipped := by
  rw [setFormula, mem_skipped_foldl_addToken, clearPrecedents, CellSet.mem_erase, Skips]

section Build

variable {limit : Nat} {entries : List (Cell × String)}

theorem mirrored_ofEntries (entries : List (Cell × String)) (limit : Nat) :
    (ofEntries entries limit).Mirrored := by
  refine List.foldlRecOn entries _ mirrored_empty ?_
  intro g h e _
  exact h.setFormula e.1 e.2.toList limit

/-- With one entry at most for each cell, the entries do not disturb each other: what a formula says
of its cell holds after all of them. -/
theorem foldl_setFormula_iff {P : Graph → Prop} {Q : Text → Prop}
    (hstep : ∀ g c text, P (g.setFormula c text limit) ↔ a = c ∧ Q text ∨ a ≠ c ∧ P g)
    (hd : entries.Pairwise fun x y => x.1 ≠ y.1) :
    P (entries.foldl (fun g e => g.setFormula e.1 e.2.toList limit) g) ↔
      (∃ s, (a, s) ∈ entries ∧ Q s.toList) ∨ (∀ s, (a, s) ∉ entries) ∧ P g := by
  induction entries generalizing g with
  | nil => simp
  | cons e entries ih =>
    obtain ⟨he, hd⟩ := List.pairwise_cons.1 hd
    rw [List.foldl_cons, ih hd, hstep]
    obtain ⟨c, s⟩ := e
    by_cases ha : a = c
    · subst a
      have hn (t : String) : (c, t) ∉ entries := fun ht => he _ ht rfl
      simp [hn]
    · simp [ha]

theorem reads_foldl_setFormula (hd : entries.Pairwise fun x y => x.1 ≠ y.1) :
    (entries.foldl (fun g e => g.setFormula e.1 e.2.toList limit) g).Reads a b ↔
      (∃ s, (a, s) ∈ entries ∧ Tracks limit s.toList b) ∨
        (∀ s, (a, s) ∉ entries) ∧ g.Reads a b :=
  foldl_setFormula_iff (P := fun g => g.Reads a b) (fun _ _ _ => reads_setFormula) hd

theorem mem_skipped_foldl_setFormula (hd : entries.Pairwise fun x y => x.1 ≠ y.1) :
    a ∈ (entries.foldl (fun g e => g.setFormula e.1 e.2.toList limit) g).skipped ↔
      (∃ s, (a, s) ∈ entries ∧ Skips limit s.toList) ∨
        (∀ s, (a, s) ∉ entries) ∧ a ∈ g.skipped :=
  foldl_setFormula_iff (P := fun g => a ∈ g.skipped) (fun _ _ _ => mem_skipped_setFormula) hd

theorem pairwise_entries (f : Formulas) : f.entries.Pairwise fun x y => x.1 ≠ y.1 := by
  refine Std.ExtTreeMap.distinct_keys_toList.imp ?_
  intro x y h he
  exact h (Std.LawfulEqCmp.compare_eq_iff_eq.2 he)

theorem mem_entries {f : Formulas} {s : String} : (c, s) ∈ f.entries ↔ f.get? c = some s :=
  Std.ExtTreeMap.mem_toList_iff_getElem?_eq_some

theorem mirrored_build (f : Formulas) (limit : Nat) : (build f limit).Mirrored :=
  mirrored_ofEntries f.entries limit

theorem reads_build (f : Formulas) :
    (build f limit).Reads a b ↔ ∃ s, f.get? a = some s ∧ Tracks limit s.toList b := by
  rw [build, ofEntries, reads_foldl_setFormula (pairwise_entries f)]
  simp [mem_entries]

theorem mem_skipped_build (f : Formulas) :
    a ∈ (build f limit).skipped ↔ ∃ s, f.get? a = some s ∧ Skips limit s.toList := by
  rw [build, ofEntries, mem_skipped_foldl_setFormula (pairwise_entries f)]
  simp [mem_entries, empty]

end Build

end Spreadsheet.Graph
