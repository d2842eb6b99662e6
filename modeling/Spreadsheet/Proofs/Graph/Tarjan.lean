import Spreadsheet.Graph.Cycle
import Spreadsheet.Proofs.Graph.Edges

/-!
The search for components. The frames are cells of the stack, and from each of them a path leads to
all that lies above it; from every cell of the stack a path leads back to a frame below it. So when a
frame is left, the cells from it to the top are one component as soon as none of them reads a cell
further down, which the low link tells. Main statement: a search that has come to its end has noted
as circular the cells entered that lead to themselves.
-/
namespace Spreadsheet.Graph

open Relation

variable {g : Graph} {a b c d r : Cell}

namespace Tarjan

variable {t : Tarjan} {f : Frame} {work : List Frame} {nodes : List Cell} {n : Nat}
  {P Q : Cell → Cell → Prop}

section Fields

theorem mem_index_visit : d ∈ (t.visit c).index ↔ d = c ∨ d ∈ t.index := by
  rw [visit, Std.ExtTreeMap.mem_iff_contains, CellMap.contains_insert, Bool.or_eq_true, beq_iff_eq,
    Std.ExtTreeMap.mem_iff_contains]

theorem number_visit : (t.visit c).number d = if d = c then t.index.size else t.number d := by
  simp only [number, visit, Std.ExtTreeMap.getElem?_insert, Std.LawfulEqCmp.compare_eq_iff_eq]
  by_cases h : d = c
  · simp [h]
  · simp [h, Ne.symm h]

theorem low_visit : (t.visit c).low d = if d = c then t.index.size else t.low d := by
  simp only [low, visit, Std.ExtTreeMap.getElem?_insert, Std.LawfulEqCmp.compare_eq_iff_eq]
  by_cases h : d = c
  · simp [h]
  · simp [h, Ne.symm h]

theorem number_visit_of_mem (hc : c ∉ t.index) (hd : d ∈ t.index) :
    (t.visit c).number d = t.number d := by
  rw [number_visit, if_neg (ne_of_mem_of_not_mem hd hc)]

theorem low_visit_of_mem (hc : c ∉ t.index) (hd : d ∈ t.index) : (t.visit c).low d = t.low d := by
  rw [low_visit, if_neg (ne_of_mem_of_not_mem hd hc)]

theorem number_visit_lt (h : t.number d < t.index.size) (hc : c ∉ t.index) (hd : d ∈ t.index) :
    (t.visit c).number d < (t.visit c).number c := by
  rwa [number_visit_of_mem hc hd, number_visit, if_pos rfl]

@[simp] theorem number_lower : (t.lower c n).number d = t.number d := rfl

theorem low_lower (hc : c ∈ t.lowlink) :
    (t.lower c n).low d = if d = c then min (t.low c) n else t.low d := by
  simp only [low, lower, Std.ExtTreeMap.getElem?_modify, Std.LawfulEqCmp.compare_eq_iff_eq]
  by_cases h : d = c
  · subst d
    rw [Std.ExtTreeMap.mem_iff_isSome_getElem?] at hc
    obtain ⟨m, hm⟩ := Option.isSome_iff_exists.1 hc
    simp [hm]
  · simp [h, Ne.symm h]

theorem mem_lowlink_lower : d ∈ (t.lower c n).lowlink ↔ d ∈ t.lowlink :=
  Std.ExtTreeMap.mem_modify

@[simp] theorem index_lowerTop : (t.lowerTop n work).index = t.index := by
  cases work <;> rfl

@[simp] theorem index_popComponent : (t.popComponent g c).index = t.index := rfl

theorem mem_foldl_erase (cells : List Cell) (s : CellSet) :
    d ∈ cells.foldl (·.erase ·) s ↔ d ∈ s ∧ d ∉ cells := by
  induction cells generalizing s with
  | nil => simp
  | cons c cells ih =>
    rw [List.foldl_cons, ih, CellSet.mem_erase, List.mem_cons]
    grind

theorem mem_foldl_insert (cells : List Cell) (s : CellSet) :
    d ∈ cells.foldl (·.insert ·) s ↔ d ∈ s ∨ d ∈ cells := by
  induction cells generalizing s with
  | nil => simp
  | cons c cells ih =>
    rw [List.foldl_cons, ih, CellSet.mem_insert, List.mem_cons]
    grind

theorem selfLoop_iff : (g.precedentsOf? r).any (·.contains r) = true ↔ g.Reads r r := by
  rw [Option.any_eq_true]
  exact exists_congr fun s => and_congr_right fun _ => Std.ExtTreeSet.contains_iff_mem

theorem exists_popTo {stack : List Cell} (h : r ∈ stack) : ∃ above below,
    stack = above ++ r :: below ∧ popTo r stack = (above ++ [r], below) := by
  induction stack with
  | nil => cases h
  | cons c stack ih =>
    by_cases hc : c = r
    · subst c
      exact ⟨[], stack, rfl, if_pos rfl⟩
    · obtain ⟨above, below, rfl, hpop⟩ := ih ((List.mem_cons.1 h).resolve_left (Ne.symm hc))
      refine ⟨c :: above, below, rfl, ?_⟩
      rw [popTo, if_neg hc, hpop]
      rfl

section Pop

variable {above below : List Cell} (hpop : popTo r t.stack = (above ++ [r], below))
include hpop

theorem stack_popComponent : (t.popComponent g r).stack = below := by
  rw [popComponent, hpop]

theorem mem_onStack_popComponent :
    c ∈ (t.popComponent g r).onStack ↔ c ∈ t.onStack ∧ c ∉ above ++ [r] := by
  rw [popComponent, hpop]
  exact mem_foldl_erase _ _

theorem mem_circular_popComponent : c ∈ (t.popComponent g r).circular ↔
    c ∈ t.circular ∨ c ∈ above ++ [r] ∧ (above ≠ [] ∨ g.Reads r r) := by
  have hcondition : (1 < (above ++ [r]).length || (g.precedentsOf? r).any (·.contains r)) = true ↔
      above ≠ [] ∨ g.Reads r r := by
    rw [Bool.or_eq_true, selfLoop_iff, decide_eq_true_iff]
    simp [List.length_pos_iff]
  rw [popComponent, hpop, ← hcondition]
  dsimp only
  split
  · rename_i hcycle
    rw [mem_foldl_insert, iff_true_intro hcycle, and_true]
  · rename_i hcycle
    rw [iff_false_intro hcycle, and_false, or_false]

end Pop

end Fields

/-- The cell `a` has a frame in which `b` is not followed yet. -/
def Pending (work : List Frame) (a b : Cell) : Prop := ∃ f ∈ work, f.node = a ∧ b ∈ f.successors

theorem pending_cons :
    Pending (f :: work) a b ↔ f.node = a ∧ b ∈ f.successors ∨ Pending work a b := by
  simp [Pending]

/-- How numbers, stack and frames belong together. -/
structure Numbered (t : Tarjan) (nodes : List Cell) : Prop where
  number_lt : ∀ c ∈ t.index, t.number c < t.index.size
  lowlinked : ∀ c, c ∈ t.lowlink ↔ c ∈ t.index
  entered : ∀ c ∈ t.stack, c ∈ t.index
  onStack : ∀ c, c ∈ t.onStack ↔ c ∈ t.stack
  stack_sorted : t.stack.Pairwise fun a b => t.number b < t.number a
  mem_stack : ∀ r ∈ nodes, r ∈ t.stack
  nodes_sorted : nodes.Pairwise fun a b => t.number b < t.number a

/-- The search stands with frames for `nodes`, in which the edges in `P` are not followed yet. -/
structure Sound (g : Graph) (t : Tarjan) (nodes : List Cell) (P : Cell → Cell → Prop) : Prop
    extends Numbered t nodes where
  pending : ∀ a b, P a b → a ∈ nodes ∧ g.Reads a b
  followed : ∀ a ∈ t.index, ∀ b, g.Reads a b → ¬P a b → b ∈ t.index
  up : ∀ r ∈ nodes, ∀ c ∈ t.stack, t.number r ≤ t.number c → ReflTransGen g.Reads r c
  down : ∀ c ∈ t.stack, ∃ r ∈ nodes, t.number r ≤ t.number c ∧ ReflTransGen g.Reads c r
  low_le_number : ∀ r ∈ nodes, t.low r ≤ t.number r
  low_reached : ∀ r ∈ nodes, ∃ c ∈ t.stack, t.number c = t.low r ∧ ReflTransGen g.Reads r c
  low_le : ∀ a ∈ t.stack, ∀ b ∈ t.stack, g.Reads a b → ¬P a b →
    ∀ r ∈ nodes, t.number r ≤ t.number a →
      ∃ s ∈ nodes, t.number r ≤ t.number s ∧ t.number s ≤ t.number a ∧ t.low s ≤ t.number b
  closed : ∀ a ∈ t.index, a ∉ t.stack → ∀ b, g.Reads a b → b ∈ t.index ∧ b ∉ t.stack
  circular : ∀ c, c ∈ t.circular ↔ c ∈ t.index ∧ c ∉ t.stack ∧ TransGen g.Reads c c

theorem sound_start (g : Graph) : Sound g start [] (Pending []) where
  number_lt := by simp [start]
  lowlinked := by simp [start]
  entered := by simp [start]
  onStack := by simp [start]
  stack_sorted := .nil
  mem_stack := by simp
  nodes_sorted := .nil
  pending := by simp [Pending]
  followed := by simp [start]
  up := by simp
  down := by simp [start]
  low_le_number := by simp
  low_reached := by simp
  low_le := by simp
  closed := by simp [start]
  circular := by simp [start]

theorem Numbered.visit (h : Numbered t nodes) (hc : c ∉ t.index) :
    Numbered (t.visit c) (c :: nodes) := by
  have hsorted : ∀ {cells : List Cell}, (∀ d ∈ cells, d ∈ t.index) →
      cells.Pairwise (fun a b => t.number b < t.number a) →
      (c :: cells).Pairwise fun a b => (t.visit c).number b < (t.visit c).number a := by
    intro cells hmem hcells
    refine List.pairwise_cons.2 ⟨fun d hd => ?_, ?_⟩
    · exact number_visit_lt (h.number_lt d (hmem d hd)) hc (hmem d hd)
    · refine hcells.imp_of_mem fun ha hb hlt => ?_
      rwa [number_visit_of_mem hc (hmem _ ha), number_visit_of_mem hc (hmem _ hb)]
  have hnodes : ∀ r ∈ nodes, r ∈ t.index := fun r hr => h.entered r (h.mem_stack r hr)
  have hsize : (t.visit c).index.size = t.index.size + 1 := by
    rw [Tarjan.visit, Std.ExtTreeMap.size_insert, if_neg (by simpa using hc)]
  constructor
  case number_lt =>
    intro d hd
    rw [hsize]
    rcases mem_index_visit.1 hd with rfl | hd
    · rw [number_visit, if_pos rfl]
      exact Nat.lt_succ_self _
    · rw [number_visit_of_mem hc hd]
      exact Nat.lt_succ_of_lt (h.number_lt d hd)
  case lowlinked =>
    intro d
    rw [mem_index_visit, ← h.lowlinked, Tarjan.visit, Std.ExtTreeMap.mem_insert,
      Std.LawfulEqCmp.compare_eq_iff_eq, eq_comm]
  case entered =>
    intro d hd
    exact mem_index_visit.2 ((List.mem_cons.1 hd).imp_right (h.entered d))
  case onStack =>
    intro d
    rw [Tarjan.visit, CellSet.mem_insert, h.onStack, List.mem_cons]
  case stack_sorted => exact hsorted h.entered h.stack_sorted
  case mem_stack =>
    intro r hr
    exact List.mem_cons.2 ((List.mem_cons.1 hr).imp_right (h.mem_stack r))
  case nodes_sorted => exact hsorted hnodes h.nodes_sorted

theorem Sound.visit (h : Sound g t nodes P) (hc : c ∉ t.index)
    (hreach : ∀ r ∈ nodes, ReflTransGen g.Reads r c) :
    Sound g (t.visit c) (c :: nodes) (fun a b => a = c ∧ g.Reads c b ∨ P a b) := by
  have hsame : ∀ d ∈ t.index, (t.visit c).number d = t.number d := fun d hd =>
    number_visit_of_mem hc hd
  have hlow : ∀ d ∈ t.index, (t.visit c).low d = t.low d := fun d hd => low_visit_of_mem hc hd
  have hnodes : ∀ r ∈ nodes, r ∈ t.index := fun r hr => h.entered r (h.mem_stack r hr)
  have htop : ∀ d ∈ t.index, (t.visit c).number d < (t.visit c).number c := fun d hd =>
    number_visit_lt (h.number_lt d hd) hc hd
  have hmem {d : Cell} : d ∈ (t.visit c).stack ↔ d = c ∨ d ∈ t.stack := List.mem_cons
  constructor
  case toNumbered => exact h.toNumbered.visit hc
  case pending =>
    rintro a b (⟨rfl, hb⟩ | hab)
    · exact ⟨List.mem_cons_self, hb⟩
    · exact ⟨List.mem_cons_of_mem c (h.pending a b hab).1, (h.pending a b hab).2⟩
  case followed =>
    intro a ha b hab hp
    rw [not_or] at hp
    rcases mem_index_visit.1 ha with rfl | ha
    · exact absurd ⟨rfl, hab⟩ hp.1
    · exact mem_index_visit.2 (.inr (h.followed a ha b hab hp.2))
  case up =>
    intro r hr d hd hle
    rcases List.mem_cons.1 hr with rfl | hr'
    · rcases hmem.1 hd with rfl | hd
      · exact .refl
      · exact absurd (htop d (h.entered d hd)) (Nat.not_lt.2 hle)
    · rcases hmem.1 hd with rfl | hd
      · exact hreach r hr'
      · rw [hsame r (hnodes r hr'), hsame d (h.entered d hd)] at hle
        exact h.up r hr' d hd hle
  case down =>
    intro d hd
    rcases hmem.1 hd with rfl | hd
    · exact ⟨d, List.mem_cons_self, Nat.le_refl _, .refl⟩
    · obtain ⟨r, hr, hle, p⟩ := h.down d hd
      refine ⟨r, List.mem_cons_of_mem c hr, ?_, p⟩
      rwa [hsame r (hnodes r hr), hsame d (h.entered d hd)]
  case low_le_number =>
    intro r hr
    rcases List.mem_cons.1 hr with rfl | hr
    · apply Nat.le_of_eq
      rw [low_visit, number_visit, if_pos rfl, if_pos rfl]
    · rw [hlow r (hnodes r hr), hsame r (hnodes r hr)]
      exact h.low_le_number r hr
  case low_reached =>
    intro r hr
    rcases List.mem_cons.1 hr with rfl | hr
    · refine ⟨r, hmem.2 (.inl rfl), ?_, .refl⟩
      rw [low_visit, number_visit, if_pos rfl, if_pos rfl]
    · obtain ⟨d, hd, heq, p⟩ := h.low_reached r hr
      refine ⟨d, hmem.2 (.inr hd), ?_, p⟩
      rwa [hlow r (hnodes r hr), hsame d (h.entered d hd)]
  case low_le =>
    intro a ha b hb hab hp r hr hle
    rw [not_or] at hp
    rcases hmem.1 ha with rfl | ha
    · exact absurd ⟨rfl, hab⟩ hp.1
    · have hai := h.entered a ha
      rcases List.mem_cons.1 hr with rfl | hr
      · exact absurd (htop a hai) (Nat.not_lt.2 hle)
      · rcases hmem.1 hb with rfl | hb
        · exact absurd (h.followed a hai b hab hp.2) hc
        · rw [hsame r (hnodes r hr), hsame a hai] at hle
          obtain ⟨s, hs, hrs, hsa, hsb⟩ := h.low_le a ha b hb hab hp.2 r hr hle
          refine ⟨s, List.mem_cons_of_mem c hs, ?_⟩
          rw [hsame r (hnodes r hr), hsame s (hnodes s hs), hsame a hai, hlow s (hnodes s hs),
            hsame b (h.entered b hb)]
          exact ⟨hrs, hsa, hsb⟩
  case closed =>
    intro a ha hs b hab
    rw [hmem, not_or] at hs
    obtain ⟨hb, hbs⟩ := h.closed a ((mem_index_visit.1 ha).resolve_left hs.1) hs.2 b hab
    refine ⟨mem_index_visit.2 (.inr hb), ?_⟩
    rw [hmem, not_or]
    exact ⟨ne_of_mem_of_not_mem hb hc, hbs⟩
  case circular =>
    intro d
    rw [show (t.visit c).circular = t.circular from rfl, h.circular, mem_index_visit, hmem]
    constructor
    · rintro ⟨hd, hs, p⟩
      exact ⟨.inr hd, not_or.2 ⟨ne_of_mem_of_not_mem hd hc, hs⟩, p⟩
    · rintro ⟨hd, hs, p⟩
      rw [not_or] at hs
      exact ⟨hd.resolve_left hs.1, hs.2, p⟩

/-- The edge from `a` to `b` is followed, and `a` has a low link for it. -/
theorem Sound.follow (h : Sound g t nodes P) (ha : a ∈ nodes) (hb : b ∈ t.index)
    (hlow : b ∈ t.stack → t.low a ≤ t.number b) (hQ : ∀ x y, Q x y → P x y)
    (hP : ∀ x y, P x y → Q x y ∨ x = a ∧ y = b) : Sound g t nodes Q := by
  have hsplit : ∀ {x y}, ¬Q x y → ¬P x y ∨ x = a ∧ y = b := by
    intro x y hxy
    by_cases hp : P x y
    · exact .inr ((hP x y hp).resolve_left hxy)
    · exact .inl hp
  refine { h with pending := ?pending, followed := ?followed, low_le := ?low_le }
  case pending => exact fun x y hxy => h.pending x y (hQ x y hxy)
  case followed =>
    intro x hx y hxy hq
    rcases hsplit hq with hp | ⟨rfl, rfl⟩
    · exact h.followed x hx y hxy hp
    · exact hb
  case low_le =>
    intro x hx y hy hxy hq r hr hle
    rcases hsplit hq with hp | ⟨rfl, rfl⟩
    · exact h.low_le x hx y hy hxy hp r hr hle
    · exact ⟨x, ha, hle, Nat.le_refl _, hlow hy⟩

theorem Sound.lower (h : Sound g t nodes P) (hr : r ∈ nodes) (hd : d ∈ t.stack)
    (p : ReflTransGen g.Reads r d) : Sound g (t.lower r (t.number d)) nodes P := by
  have hrl : r ∈ t.lowlink := (h.lowlinked r).2 (h.entered r (h.mem_stack r hr))
  have hle : ∀ s, (t.lower r (t.number d)).low s ≤ t.low s := by
    intro s
    rw [low_lower hrl]
    split
    · subst s
      exact Nat.min_le_left _ _
    · exact Nat.le_refl _
  refine { h with
    lowlinked := ?lowlinked, low_le_number := ?low_le_number, low_reached := ?low_reached
    low_le := ?low_le }
  case lowlinked => exact fun c => mem_lowlink_lower.trans (h.lowlinked c)
  case low_le_number => exact fun s hs => Nat.le_trans (hle s) (h.low_le_number s hs)
  case low_reached =>
    intro s hs
    rw [low_lower hrl]
    by_cases hsr : s = r
    · subst s
      rw [if_pos rfl]
      rcases Nat.le_total (t.low r) (t.number d) with hmin | hmin
      · rw [Nat.min_eq_left hmin]
        exact h.low_reached r hr
      · rw [Nat.min_eq_right hmin]
        exact ⟨d, hd, rfl, p⟩
    · rw [if_neg hsr]
      exact h.low_reached s hs
  case low_le =>
    intro a ha b hb hab hp s hs hsa
    obtain ⟨s', hs', hss', hsa', hlow⟩ := h.low_le a ha b hb hab hp s hs hsa
    exact ⟨s', hs', hss', hsa', Nat.le_trans (hle s') hlow⟩

theorem Numbered.tail (h : Numbered t (r :: nodes)) : Numbered t nodes where
  number_lt := h.number_lt
  lowlinked := h.lowlinked
  entered := h.entered
  onStack := h.onStack
  stack_sorted := h.stack_sorted
  mem_stack s hs := h.mem_stack s (List.mem_cons_of_mem r hs)
  nodes_sorted := h.nodes_sorted.of_cons

theorem Numbered.number_lt_head (h : Numbered t (r :: nodes)) :
    ∀ s ∈ nodes, t.number s < t.number r :=
  (List.pairwise_cons.1 h.nodes_sorted).1

theorem Numbered.number_le_head (h : Numbered t (r :: nodes)) :
    ∀ s ∈ r :: nodes, t.number s ≤ t.number r := by
  intro s hs
  rcases List.mem_cons.1 hs with rfl | hs
  · exact Nat.le_refl _
  · exact Nat.le_of_lt (h.number_lt_head s hs)

theorem mem_of_number_lt (hc : c ∈ r :: nodes) (hlt : t.number c < t.number r) : c ∈ nodes := by
  rcases List.mem_cons.1 hc with rfl | hc
  · exact absurd hlt (Nat.lt_irrefl _)
  · exact hc

theorem Sound.pending_tail (h : Sound g t (r :: nodes) P) (hdone : ∀ b, ¬P r b) :
    ∀ a b, P a b → a ∈ nodes ∧ g.Reads a b := by
  intro a b hab
  obtain ⟨ha, hread⟩ := h.pending a b hab
  rcases List.mem_cons.1 ha with rfl | ha
  · exact absurd hab (hdone b)
  · exact ⟨ha, hread⟩

/-- A frame is left whose cell leads further down. The frame below has its low link already. -/
theorem Sound.leave (h : Sound g t (r :: nodes) P) (hdone : ∀ b, ¬P r b)
    (hlow : t.low r < t.number r) (hbelow : ∀ s ∈ nodes.head?, t.low s ≤ t.low r) :
    Sound g t nodes P := by
  refine { h with
    toNumbered := h.toNumbered.tail, pending := h.pending_tail hdone, up := ?up, down := ?down
    low_le_number := ?low_le_number, low_reached := ?low_reached, low_le := ?low_le }
  case up => exact fun s hs => h.up s (List.mem_cons_of_mem r hs)
  case down =>
    intro c hc
    obtain ⟨s, hs, hle, p⟩ := h.down c hc
    rcases List.mem_cons.1 hs with rfl | hs
    · obtain ⟨d, hd, hnumber, q⟩ := h.low_reached s List.mem_cons_self
      obtain ⟨s', hs', hle', q'⟩ := h.down d hd
      have hlt : t.number s' < t.number s := by omega
      exact ⟨s', mem_of_number_lt hs' hlt, by omega, (p.trans q).trans q'⟩
    · exact ⟨s, hs, hle, p⟩
  case low_le_number => exact fun s hs => h.low_le_number s (List.mem_cons_of_mem r hs)
  case low_reached => exact fun s hs => h.low_reached s (List.mem_cons_of_mem r hs)
  case low_le =>
    intro a ha b hb hab hp s hs hle
    obtain ⟨s', hs', hss', hsa', hlow'⟩ :=
      h.low_le a ha b hb hab hp s (List.mem_cons_of_mem r hs) hle
    rcases List.mem_cons.1 hs' with rfl | hs'
    · cases nodes with
      | nil => cases hs
      | cons q nodes =>
        have hq := h.number_lt_head q List.mem_cons_self
        have hsq := h.toNumbered.tail.number_le_head s hs
        have hqr : t.low q ≤ t.low s' := hbelow q rfl
        exact ⟨q, List.mem_cons_self, hsq, by omega, by omega⟩
    · exact ⟨s', hs', hss', hsa', hlow'⟩

section Stack

variable {above below : List Cell}

theorem Numbered.split (h : Numbered t nodes) (hstack : t.stack = above ++ r :: below) :
    (∀ c ∈ above, t.number r < t.number c) ∧ ∀ c ∈ below, t.number c < t.number r := by
  have hsorted := h.stack_sorted
  rw [hstack] at hsorted
  obtain ⟨-, hbelow, habove⟩ := List.pairwise_append.1 hsorted
  exact ⟨fun c hc => habove c hc r List.mem_cons_self, (List.pairwise_cons.1 hbelow).1⟩

theorem Numbered.mem_component_iff (h : Numbered t nodes)
    (hstack : t.stack = above ++ r :: below) :
    c ∈ above ++ [r] ↔ c ∈ t.stack ∧ t.number r ≤ t.number c := by
  obtain ⟨habove, hbelow⟩ := h.split hstack
  rw [hstack]
  simp only [List.mem_append, List.mem_cons, List.not_mem_nil, or_false]
  constructor
  · rintro (hc | rfl)
    · exact ⟨.inl hc, Nat.le_of_lt (habove c hc)⟩
    · exact ⟨.inr (.inl rfl), Nat.le_refl _⟩
  · rintro ⟨hc | rfl | hc, hle⟩
    · exact .inl hc
    · exact .inr rfl
    · exact absurd (hbelow c hc) (Nat.not_lt.2 hle)

theorem Numbered.mem_below_iff (h : Numbered t nodes) (hstack : t.stack = above ++ r :: below) :
    c ∈ below ↔ c ∈ t.stack ∧ t.number c < t.number r := by
  obtain ⟨habove, hbelow⟩ := h.split hstack
  rw [hstack]
  simp only [List.mem_append, List.mem_cons]
  constructor
  · intro hc
    exact ⟨.inr (.inr hc), hbelow c hc⟩
  · rintro ⟨hc | rfl | hc, hlt⟩
    · exact absurd (habove c hc) (Nat.not_lt.2 (Nat.le_of_lt hlt))
    · exact absurd hlt (Nat.lt_irrefl _)
    · exact hc

end Stack

section Component

variable (h : Sound g t (r :: nodes) P)
include h

theorem Sound.mutual (hc : c ∈ t.stack) (hle : t.number r ≤ t.number c) :
    ReflTransGen g.Reads r c ∧ ReflTransGen g.Reads c r := by
  refine ⟨h.up r List.mem_cons_self c hc hle, ?_⟩
  obtain ⟨s, hs, -, p⟩ := h.down c hc
  have hsr := h.number_le_head s hs
  exact p.trans (h.up s hs r (h.mem_stack r List.mem_cons_self) hsr)

theorem Sound.closed_of_reaches (ha : a ∈ t.index) (hs : a ∉ t.stack)
    (p : ReflTransGen g.Reads a b) : b ∉ t.stack := by
  have hb : b ∈ t.index ∧ b ∉ t.stack := by
    induction p with
    | refl => exact ⟨ha, hs⟩
    | tail _ hxy ih => exact h.closed _ ih.1 ih.2 _ hxy
  exact hb.2

variable (hdone : ∀ b, ¬P r b) (hroot : t.low r = t.number r)
include hdone hroot

/-- The cells of a component whose root is found read cells that are complete, or each other. -/
theorem Sound.reads_component (ha : a ∈ t.stack) (hle : t.number r ≤ t.number a)
    (hab : g.Reads a b) : b ∈ t.index ∧ (b ∈ t.stack → t.number r ≤ t.number b) := by
  have hp : ¬P a b := by
    intro hab
    rcases List.mem_cons.1 (h.pending a b hab).1 with rfl | hnode
    · exact hdone b hab
    · exact absurd (h.number_lt_head a hnode) (Nat.not_lt.2 hle)
  refine ⟨h.followed a (h.entered a ha) b hab hp, fun hb => ?_⟩
  obtain ⟨s, hs, hrs, -, hlow⟩ := h.low_le a ha b hb hab hp r List.mem_cons_self hle
  rcases List.mem_cons.1 hs with rfl | hs
  · omega
  · exact absurd (h.number_lt_head s hs) (Nat.not_lt.2 hrs)

variable {above below : List Cell} (hstack : t.stack = above ++ r :: below)
include hstack

/-- A component is on a cycle if it has a second cell, or if its root reads itself. -/
theorem Sound.transGen_component (hc : c ∈ above ++ [r]) :
    TransGen g.Reads c c ↔ above ≠ [] ∨ g.Reads r r := by
  have hmem {d : Cell} := h.mem_component_iff (c := d) hstack
  obtain ⟨hcs, hle⟩ := hmem.1 hc
  obtain ⟨hrc, hcr⟩ := h.mutual hcs hle
  constructor
  · intro p
    by_cases habove : above = []
    · subst above
      obtain rfl := List.mem_singleton.1 hc
      obtain ⟨e, hce, q⟩ := TransGen.head'_iff.1 p
      obtain ⟨hei, hlast⟩ := h.reads_component hdone hroot hcs hle hce
      by_cases he : e ∈ t.stack
      · obtain rfl := List.mem_singleton.1 (hmem.2 ⟨he, hlast he⟩)
        exact .inr hce
      · exact absurd hcs (h.closed_of_reaches hei he q)
    · exact .inl habove
  · rintro (habove | hloop)
    · obtain ⟨d, hd, hne⟩ : ∃ d ∈ above ++ [r], d ≠ c := by
        obtain ⟨d, hd⟩ := List.exists_mem_of_ne_nil above habove
        by_cases hdc : d = c
        · refine ⟨r, List.mem_append_right above List.mem_cons_self, ?_⟩
          rintro rfl
          exact absurd ((h.split hstack).1 d hd) (hdc ▸ Nat.lt_irrefl _)
        · exact ⟨d, List.mem_append_left [r] hd, hdc⟩
      obtain ⟨hds, hdle⟩ := hmem.1 hd
      obtain ⟨hrd, hdr⟩ := h.mutual hds hdle
      rcases reflTransGen_iff_eq_or_transGen.1 (hcr.trans hrd) with heq | p
      · exact absurd heq hne
      · exact p.trans_left (hdr.trans hrc)
    · exact .trans_right hcr (.trans_left (.single hloop) hrc)

end Component

theorem Numbered.pop (h : Numbered t (r :: nodes)) : Numbered (t.popComponent g r) nodes := by
  obtain ⟨above, below, hstack, hpop⟩ := exists_popTo (h.mem_stack r List.mem_cons_self)
  have hbelow {c : Cell} := h.mem_below_iff (c := c) hstack
  refine { h.tail with
    entered := ?entered, onStack := ?onStack, stack_sorted := ?stack_sorted
    mem_stack := ?mem_stack }
  case entered =>
    intro c hc
    rw [stack_popComponent hpop] at hc
    exact h.entered c (hbelow.1 hc).1
  case onStack =>
    intro c
    rw [mem_onStack_popComponent hpop, stack_popComponent hpop, h.onStack,
      h.mem_component_iff hstack, hbelow]
    grind
  case stack_sorted =>
    have hsublist : below.Sublist t.stack := by
      rw [hstack]
      exact (List.sublist_cons_self r below).trans (List.sublist_append_right above _)
    rw [stack_popComponent hpop]
    exact h.stack_sorted.sublist hsublist
  case mem_stack =>
    intro s hs
    rw [stack_popComponent hpop]
    exact hbelow.2 ⟨h.mem_stack s (List.mem_cons_of_mem r hs), h.number_lt_head s hs⟩

/-- A frame is left that is the root of a component, and the component is complete. -/
theorem Sound.pop (h : Sound g t (r :: nodes) P) (hdone : ∀ b, ¬P r b)
    (hroot : t.low r = t.number r) : Sound g (t.popComponent g r) nodes P := by
  obtain ⟨above, below, hstack, hpop⟩ := exists_popTo (h.mem_stack r List.mem_cons_self)
  have hbelow {c : Cell} :
      c ∈ (t.popComponent g r).stack ↔ c ∈ t.stack ∧ t.number c < t.number r := by
    rw [stack_popComponent hpop]
    exact h.mem_below_iff hstack
  constructor
  case toNumbered => exact h.toNumbered.pop
  case pending => exact h.pending_tail hdone
  case followed => exact h.followed
  case up => exact fun s hs c hc => h.up s (List.mem_cons_of_mem r hs) c (hbelow.1 hc).1
  case down =>
    intro c hc
    obtain ⟨hcs, hlt⟩ := hbelow.1 hc
    obtain ⟨s, hs, hle, p⟩ := h.down c hcs
    exact ⟨s, mem_of_number_lt hs (Nat.lt_of_le_of_lt hle hlt), hle, p⟩
  case low_le_number => exact fun s hs => h.low_le_number s (List.mem_cons_of_mem r hs)
  case low_reached =>
    intro s hs
    obtain ⟨c, hc, heq, p⟩ := h.low_reached s (List.mem_cons_of_mem r hs)
    have hle := h.low_le_number s (List.mem_cons_of_mem r hs)
    have hlt := h.number_lt_head s hs
    exact ⟨c, hbelow.2 ⟨hc, heq ▸ Nat.lt_of_le_of_lt hle hlt⟩, heq, p⟩
  case low_le =>
    intro a ha b hb hab hp s hs hle
    obtain ⟨has, hlt⟩ := hbelow.1 ha
    obtain ⟨s', hs', hss', hsa', hlow⟩ :=
      h.low_le a has b (hbelow.1 hb).1 hab hp s (List.mem_cons_of_mem r hs) hle
    exact ⟨s', mem_of_number_lt hs' (Nat.lt_of_le_of_lt hsa' hlt), hss', hsa', hlow⟩
  case closed =>
    intro a ha hs b hab
    by_cases has : a ∈ t.stack
    · have hle : t.number r ≤ t.number a := Nat.not_lt.1 fun hlt => hs (hbelow.2 ⟨has, hlt⟩)
      obtain ⟨hb, hlast⟩ := h.reads_component hdone hroot has hle hab
      refine ⟨hb, fun hbb => ?_⟩
      obtain ⟨hbs, hlt⟩ := hbelow.1 hbb
      exact absurd hlt (Nat.not_lt.2 (hlast hbs))
    · obtain ⟨hb, hbs⟩ := h.closed a ha has b hab
      exact ⟨hb, fun hbb => hbs (hbelow.1 hbb).1⟩
  case circular =>
    intro c
    rw [mem_circular_popComponent hpop, h.circular, index_popComponent]
    by_cases hc : c ∈ above ++ [r]
    · obtain ⟨hcs, hle⟩ := (h.mem_component_iff hstack).1 hc
      have hcb : c ∉ (t.popComponent g r).stack := fun hcb =>
        absurd (hbelow.1 hcb).2 (Nat.not_lt.2 hle)
      rw [← h.transGen_component hdone hroot hstack hc]
      exact ⟨fun p => ⟨h.entered c hcs, hcb, (p.resolve_left fun hold => hold.2.1 hcs).2⟩,
        fun p => .inr ⟨hc, p.2.2⟩⟩
    · have hcb : c ∈ (t.popComponent g r).stack ↔ c ∈ t.stack := by
        rw [hbelow]
        rw [h.mem_component_iff hstack] at hc
        grind
      rw [hcb]
      exact ⟨fun p => p.resolve_right fun hnew => hc hnew.1, .inl⟩

/-- The invariant, read off the frames. -/
def Stands (g : Graph) (t : Tarjan) (work : List Frame) : Prop :=
  Sound g t (work.map Frame.node) (Pending work)

theorem Stands.reaches_next (h : Stands g t (f :: work)) (hread : g.Reads f.node c) :
    ∀ r ∈ (f :: work).map Frame.node, ReflTransGen g.Reads r c := by
  intro r hr
  have hle := h.number_le_head r hr
  exact (h.up r hr f.node (h.mem_stack f.node List.mem_cons_self) hle).tail hread

section Step

variable {next : Cell} {successors : List Cell}

theorem Stands.visit (h : Stands g t (⟨r, next :: successors⟩ :: work)) (hnext : next ∉ t.index) :
    Stands g (t.visit next) (⟨next, g.precedentsOf next⟩ :: ⟨r, successors⟩ :: work) := by
  have hread : g.Reads r next := (h.pending r next (pending_cons.2 (.inl ⟨rfl, by simp⟩))).2
  have hvisit := Sound.visit h hnext (h.reaches_next hread)
  have hr : r ∈ next :: r :: work.map Frame.node := List.mem_cons_of_mem next List.mem_cons_self
  refine hvisit.follow hr (mem_index_visit.2 (.inl rfl)) (fun _ => ?_) ?_ ?_
  · have hlt := hvisit.number_lt_head r List.mem_cons_self
    exact Nat.le_of_lt (Nat.lt_of_le_of_lt (hvisit.low_le_number r hr) hlt)
  · intro x y hxy
    simp only [pending_cons, mem_precedentsOf, List.mem_cons] at hxy ⊢
    grind
  · intro x y hxy
    simp only [pending_cons, mem_precedentsOf, List.mem_cons] at hxy ⊢
    grind

theorem Stands.follow (h : Stands g t (⟨r, next :: successors⟩ :: work)) (hnext : next ∈ t.index)
    (hlow : next ∈ t.stack → t.low r ≤ t.number next) : Stands g t (⟨r, successors⟩ :: work) := by
  refine Sound.follow h List.mem_cons_self hnext hlow ?_ ?_
  · intro x y hxy
    simp only [pending_cons, List.mem_cons] at hxy ⊢
    grind
  · intro x y hxy
    simp only [pending_cons, List.mem_cons] at hxy ⊢
    grind

/-- The frame below the top has the low link of the top, or a lower one. -/
theorem Stands.lowerTop (h : Stands g t (⟨r, []⟩ :: work)) :
    Stands g (t.lowerTop (t.low r) work) (⟨r, []⟩ :: work) ∧
      (t.lowerTop (t.low r) work).low r = t.low r ∧
      ∀ s ∈ (work.map Frame.node).head?, (t.lowerTop (t.low r) work).low s ≤ t.low r := by
  cases work with
  | nil => exact ⟨h, rfl, nofun⟩
  | cons parent work =>
    have hparent : parent.node ∈ (⟨r, []⟩ :: parent :: work : List Frame).map Frame.node :=
      List.mem_cons_of_mem r List.mem_cons_self
    have hlt := h.number_lt_head parent.node List.mem_cons_self
    obtain ⟨c, hc, hnumber, p⟩ := h.low_reached r List.mem_cons_self
    have hup := h.up parent.node hparent r (h.mem_stack r List.mem_cons_self) (Nat.le_of_lt hlt)
    have hlower := Sound.lower h hparent hc (hup.trans p)
    have hlink := (h.lowlinked parent.node).2 (h.entered _ (h.mem_stack _ hparent))
    have hne : r ≠ parent.node := by
      rintro rfl
      exact absurd hlt (Nat.lt_irrefl _)
    rw [hnumber] at hlower
    refine ⟨hlower, ?_, ?_⟩
    · exact (low_lower hlink).trans (if_neg hne)
    · intro s hs
      obtain rfl := Option.some.inj hs
      refine Nat.le_trans (Nat.le_of_eq (low_lower hlink)) ?_
      rw [if_pos rfl]
      exact Nat.min_le_right _ _

/-- An edge to an entered cell counts for the low link as long as the cell is on the stack. -/
theorem Stands.revisit (h : Stands g t (⟨r, next :: successors⟩ :: work)) (hnext : next ∈ t.index) :
    Stands g (if next ∈ t.onStack then t.lower r (t.number next) else t)
      (⟨r, successors⟩ :: work) := by
  by_cases hon : next ∈ t.onStack
  · rw [if_pos hon]
    have hr : r ∈ t.stack := h.mem_stack r List.mem_cons_self
    have hread : g.Reads r next := (h.pending r next (pending_cons.2 (.inl ⟨rfl, by simp⟩))).2
    have hlower : Stands g (t.lower r (t.number next)) (⟨r, next :: successors⟩ :: work) :=
      Sound.lower h List.mem_cons_self ((h.onStack next).1 hon) (.single hread)
    apply hlower.follow hnext
    intro _
    rw [low_lower ((h.lowlinked r).2 (h.entered r hr)), if_pos rfl, number_lower]
    exact Nat.min_le_right _ _
  · rw [if_neg hon]
    apply h.follow hnext
    intro hs
    exact absurd ((h.onStack next).2 hs) hon

theorem Stands.leave (h : Stands g t (⟨r, []⟩ :: work)) :
    Stands g (t.step g ⟨r, []⟩ work).1 work := by
  obtain ⟨hlower, hlow, hbelow⟩ := h.lowerTop
  have hdone : ∀ b, ¬Pending (⟨r, []⟩ :: work) r b := by
    rintro b ⟨f, hf, hfr, hb⟩
    rcases List.mem_cons.1 hf with rfl | hf
    · cases hb
    · have hlt := h.number_lt_head f.node (List.mem_map_of_mem hf)
      exact absurd hlt (hfr ▸ Nat.lt_irrefl _)
  have hpending : Pending (⟨r, []⟩ :: work) = Pending work := by
    funext a b
    simp [pending_cons]
  simp only [step]
  generalize t.lowerTop (t.low r) work = t' at hlower hlow hbelow
  rw [← hlow] at hbelow ⊢
  unfold Stands at hlower ⊢
  by_cases hroot : t'.low r = t'.number r
  · rw [if_pos hroot, ← hpending]
    exact Sound.pop hlower hdone hroot
  · rw [if_neg hroot, ← hpending]
    have hlt := Nat.lt_of_le_of_ne (hlower.low_le_number r List.mem_cons_self) hroot
    exact Sound.leave hlower hdone hlt hbelow

end Step

theorem Stands.step (h : Stands g t (f :: work)) :
    Stands g (t.step g f work).1 (t.step g f work).2 := by
  obtain ⟨r, successors⟩ := f
  cases successors with
  | nil => exact h.leave
  | cons next successors =>
    cases hindex : t.index[next]? with
    | none =>
      have hnext : next ∉ t.index := by
        rw [Std.ExtTreeMap.mem_iff_isSome_getElem?, hindex]
        exact Bool.false_ne_true
      simp only [step, hindex]
      exact h.visit hnext
    | some n =>
      have hnext : next ∈ t.index := by
        rw [Std.ExtTreeMap.mem_iff_isSome_getElem?, hindex]
        rfl
      have hnumber : t.number next = n := by rw [number, hindex, Option.getD_some]
      simp only [step, hindex, ← hnumber]
      exact h.revisit hnext

theorem Stands.run (h : Stands g t work) : Stands g (t.run g work) [] := by
  fun_induction Tarjan.run t g work with
  | case1 => exact h
  | case2 t f work ih => exact ih h.step

theorem mem_index_step (h : c ∈ t.index) : c ∈ (t.step g f work).1.index := by
  obtain ⟨r, successors⟩ := f
  cases successors with
  | cons next successors =>
    cases hindex : t.index[next]? with
    | none =>
      simp only [step, hindex]
      exact mem_index_visit.2 (.inr h)
    | some n =>
      simp only [step, hindex]
      split <;> exact h
  | nil =>
    have hsame : (t.step g ⟨r, []⟩ work).1.index = t.index := by
      simp only [step, apply_ite Tarjan.index, index_popComponent, index_lowerTop, ite_self]
    rwa [hsame]

theorem mem_index_run (h : c ∈ t.index) : c ∈ (t.run g work).index := by
  fun_induction Tarjan.run t g work with
  | case1 => exact h
  | case2 t f work ih => exact ih (mem_index_step h)

theorem Stands.search (h : Stands g t []) (root : Cell) :
    Stands g (search g t root) [] ∧ root ∈ (search g t root).index ∧
      ∀ c ∈ t.index, c ∈ (search g t root).index := by
  unfold Tarjan.search
  split
  · rename_i hroot
    exact ⟨h, hroot, fun _ hc => hc⟩
  · rename_i hroot
    have hvisit := Sound.visit h hroot (by simp)
    have hpending : (fun a b => a = root ∧ g.Reads root b ∨ Pending [] a b) =
        Pending [⟨root, g.precedentsOf root⟩] := by
      funext a b
      simp only [pending_cons, mem_precedentsOf, @eq_comm _ root]
    rw [hpending] at hvisit
    exact ⟨Stands.run hvisit, mem_index_run (mem_index_visit.2 (.inl rfl)),
      fun c hc => mem_index_run (mem_index_visit.2 (.inr hc))⟩

/-- At the end all that was entered is complete. -/
theorem Stands.mem_circular (h : Stands g t []) :
    c ∈ t.circular ↔ c ∈ t.index ∧ TransGen g.Reads c c := by
  have hstack : c ∉ t.stack := fun hc => by
    obtain ⟨r, hr, -⟩ := h.down c hc
    cases hr
  rw [h.circular, and_iff_right hstack]

theorem Stands.foldl_search (h : Stands g t []) (roots : List Cell) :
    Stands g (roots.foldl (Tarjan.search g) t) [] ∧
      (∀ r ∈ roots, r ∈ (roots.foldl (Tarjan.search g) t).index) ∧
        ∀ c ∈ t.index, c ∈ (roots.foldl (Tarjan.search g) t).index := by
  induction roots generalizing t with
  | nil => exact ⟨h, by simp, fun _ hc => hc⟩
  | cons r roots ih =>
    obtain ⟨hs, hr, hkept⟩ := h.search r
    obtain ⟨hend, hroots, hkept'⟩ := ih hs
    exact ⟨hend, List.forall_mem_cons.2 ⟨hkept' r hr, hroots⟩, fun c hc => hkept' c (hkept c hc)⟩

end Tarjan

open Tarjan

/-- The circular cells are those that a path leads back to. -/
theorem mem_circularCells : c ∈ g.circularCells ↔ TransGen g.Reads c c := by
  obtain ⟨hend, hroots, -⟩ := Stands.foldl_search (sound_start g) g.precedents.keys
  rw [circularCells, hend.mem_circular]
  refine and_iff_right_of_imp fun p => hroots c ?_
  obtain ⟨d, ⟨s, hs, -⟩, -⟩ := TransGen.head'_iff.1 p
  rw [Std.ExtTreeMap.mem_keys, Std.ExtTreeMap.mem_iff_isSome_getElem?, hs]
  rfl

end Spreadsheet.Graph
