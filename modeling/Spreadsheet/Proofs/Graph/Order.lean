import Spreadsheet.Graph.Order
import Spreadsheet.Proofs.Graph.Path

/-!
The depth-first search behind the order of recalculation. It lists each cell that it enters once. A
cell stands in the order before every cell that an edge leads to from it, unless a path leads back.
-/
namespace Spreadsheet.Graph

open Relation

variable {m : CellMap CellSet}

/-- A place in two lists put together is a place in one of them. -/
theorem split_append {cs ds pre post : List Cell} {y : Cell} (h : cs ++ ds = pre ++ y :: post) :
    (∃ suf, cs = pre ++ y :: suf ∧ post = suf ++ ds) ∨
      ∃ pre', ds = pre' ++ y :: post ∧ pre = cs ++ pre' := by
  rcases List.append_eq_append_iff.1 h with ⟨pre', hpre, hds⟩ | ⟨suf, hcs, hsuf⟩
  · exact .inr ⟨pre', hds, hpre⟩
  · cases suf with
    | nil => exact .inr ⟨[], hsuf.symm, by simpa using hcs.symm⟩
    | cons a suf =>
      obtain ⟨rfl, rfl⟩ := List.cons_eq_cons.1 hsuf
      exact .inl ⟨suf, hcs, rfl⟩

namespace Search

/-- A cell that was left leads to entered cells only. -/
def Closed (m : CellMap CellSet) (s : Search) : Prop := ∀ a ∈ s.order, ∀ b, Edge m a b → b ∈ s.entered

theorem mem_entered_enter {s : Search} {c d : Cell} :
    d ∈ (s.enter c).entered ↔ d = c ∨ d ∈ s.entered := by
  rw [enter, CellSet.mem_insert]

theorem Closed.enter {s : Search} {c : Cell} (hs : s.Closed m) : (s.enter c).Closed m := by
  intro a ha b hab
  exact mem_entered_enter.2 (.inr (hs a ha b hab))

/-- What a visit of some cells does: it enters and leaves the cells `new`. -/
structure Visits (m : CellMap CellSet) (s : Search) (cells : List Cell) (new : List Cell)
    (s' : Search) : Prop where
  closed : s'.Closed m
  order_eq : s'.order = new ++ s.order
  mem_entered : ∀ d, d ∈ s'.entered ↔ d ∈ new ∨ d ∈ s.entered
  fresh : ∀ d ∈ new, d ∉ s.entered
  nodup : new.Nodup
  reached : ∀ d ∈ new, Leads m cells d
  covers : ∀ c ∈ cells, c ∈ s'.entered
  returns : ∀ pre y post x, new = pre ++ y :: post → x ∈ post → Edge m x y →
    ReflTransGen (Edge m) y x

namespace Visits

variable {s s₁ s₂ : Search} {c : Cell} {cells cells₁ cells₂ new new₁ new₂ : List Cell}

theorem nil (hs : s.Closed m) : Visits m s [] [] s where
  closed := hs
  order_eq := rfl
  mem_entered := by simp
  fresh := by simp
  nodup := List.nodup_nil
  reached := by simp
  covers := by simp
  returns := by simp

theorem cons_of_mem (hc : c ∈ s.entered) (h : Visits m s cells new s₁) :
    Visits m s (c :: cells) new s₁ where
  closed := h.closed
  order_eq := h.order_eq
  mem_entered := h.mem_entered
  fresh := h.fresh
  nodup := h.nodup
  reached d hd := by
    obtain ⟨e, he, p⟩ := h.reached d hd
    exact ⟨e, List.mem_cons_of_mem c he, p⟩
  covers d hd := by
    rcases List.mem_cons.1 hd with rfl | hd
    · exact (h.mem_entered d).2 (.inr hc)
    · exact h.covers d hd
  returns := h.returns

/-- A cell is entered, then what it leads to is visited, then the cell is left. -/
theorem around (hc : c ∉ s.entered) (hcells : ∀ d, d ∈ cells ↔ Edge m c d)
    (h : Visits m (s.enter c) cells new s₁) : Visits m s [c] (c :: new) (s₁.leave c) where
  closed a ha b hab := by
    rcases List.mem_cons.1 ha with rfl | ha
    · exact h.covers b ((hcells b).2 hab)
    · exact h.closed a ha b hab
  order_eq := congrArg (c :: ·) h.order_eq
  mem_entered d := by
    rw [List.mem_cons, or_assoc, or_left_comm, ← mem_entered_enter]
    exact h.mem_entered d
  fresh d hd := by
    rcases List.mem_cons.1 hd with rfl | hd
    · exact hc
    · exact fun he => h.fresh d hd (mem_entered_enter.2 (.inr he))
  nodup := List.nodup_cons.2 ⟨fun hn => h.fresh c hn (mem_entered_enter.2 (.inl rfl)), h.nodup⟩
  reached d hd := by
    rcases List.mem_cons.1 hd with rfl | hd
    · exact leads_of_mem List.mem_cons_self
    · obtain ⟨e, he, p⟩ := h.reached d hd
      exact ⟨c, List.mem_cons_self, p.head ((hcells e).1 he)⟩
  covers d hd := by
    obtain rfl := List.mem_singleton.1 hd
    exact (h.mem_entered d).2 (.inr (mem_entered_enter.2 (.inl rfl)))
  returns pre y post x hsplit hx hxy := by
    cases pre with
    | nil =>
      obtain ⟨rfl, rfl⟩ := List.cons_eq_cons.1 hsplit
      obtain ⟨e, he, q⟩ := h.reached x hx
      exact q.head ((hcells e).1 he)
    | cons a pre => exact h.returns pre y post x (List.cons_eq_cons.1 hsplit).2 hx hxy

theorem append (h₁ : Visits m s cells₁ new₁ s₁)
    (h₂ : Visits m s₁ cells₂ new₂ s₂) : Visits m s (cells₁ ++ cells₂) (new₂ ++ new₁) s₂ where
  closed := h₂.closed
  order_eq := by rw [h₂.order_eq, h₁.order_eq, List.append_assoc]
  mem_entered d := by rw [h₂.mem_entered, h₁.mem_entered, List.mem_append, or_assoc]
  fresh d hd := by
    rcases List.mem_append.1 hd with hd | hd
    · exact fun he => h₂.fresh d hd ((h₁.mem_entered d).2 (.inr he))
    · exact h₁.fresh d hd
  nodup := by
    refine List.nodup_append.2 ⟨h₂.nodup, h₁.nodup, ?_⟩
    rintro a ha b hb rfl
    exact h₂.fresh a ha ((h₁.mem_entered a).2 (.inl hb))
  reached d hd := by
    rw [leads_append]
    rcases List.mem_append.1 hd with hd | hd
    · exact .inr (h₂.reached d hd)
    · exact .inl (h₁.reached d hd)
  covers c hc := by
    rcases List.mem_append.1 hc with hc | hc
    · exact (h₂.mem_entered c).2 (.inr (h₁.covers c hc))
    · exact h₂.covers c hc
  returns pre y post x hsplit hx hxy := by
    rcases split_append hsplit with ⟨suf, hn, rfl⟩ | ⟨pre₁, hn, rfl⟩
    · rcases List.mem_append.1 hx with hx | hx
      · exact h₂.returns pre y suf x hn hx hxy
      · have hleft : x ∈ s₁.order := h₁.order_eq ▸ List.mem_append_left s.order hx
        have hy : y ∈ s₁.entered := h₁.closed x hleft y hxy
        exact absurd hy (h₂.fresh y (by simp [hn]))
    · exact h₁.returns pre₁ y post x hn hx hxy

end Visits

end Search

open Search

theorem exists_visits {g : Graph} {s : Search} (cells : List Cell) (hs : s.Closed g.dependents) :
    ∃ new, Visits g.dependents s cells new (visit g s cells).val := by
  fun_induction visit g s cells with
  | case1 s => exact ⟨[], .nil hs⟩
  | case2 s c cells hc ih =>
    obtain ⟨new, h⟩ := ih hs
    exact ⟨new, h.cons_of_mem hc⟩
  | case3 s c cells hc inner _ outer ih_inner ih_outer _ =>
    obtain ⟨new₁, h⟩ := ih_inner hs.enter
    have h₁ : Visits g.dependents s [c] (c :: new₁) (inner.val.leave c) :=
      h.around hc fun d => mem_directDependents
    obtain ⟨new₂, h₂⟩ := ih_outer h₁.closed
    exact ⟨new₂ ++ c :: new₁, h₁.append h₂⟩

/-- The order from some cells on: each cell once, and each before those that it leads to. -/
structure Ordering (m : CellMap CellSet) (cells order : List Cell) : Prop where
  nodup : order.Nodup
  mem_iff : ∀ d, d ∈ order ↔ Leads m cells d
  returns : ∀ pre y post x, order = pre ++ y :: post → x ∈ post → Edge m x y →
    ReflTransGen (Edge m) y x

theorem ordering_recalcOrder (g : Graph) (changed : List Cell) :
    Ordering g.dependents changed (g.recalcOrder changed) := by
  have hs : Closed g.dependents ⟨∅, []⟩ := by simp [Closed]
  obtain ⟨new, h⟩ := exists_visits changed hs
  have hnew : g.recalcOrder changed = new := by simpa [recalcOrder] using h.order_eq
  have hentered (d : Cell) : d ∈ (visit g ⟨∅, []⟩ changed).val.entered ↔ d ∈ new := by
    simpa using h.mem_entered d
  rw [hnew]
  refine ⟨h.nodup, fun d => ⟨h.reached d, ?_⟩, h.returns⟩
  · rintro ⟨c, hc, p⟩
    rw [← hentered]
    induction p with
    | refl => exact h.covers c hc
    | @tail a b _ hab ih =>
      have ha : a ∈ g.recalcOrder changed := hnew ▸ (hentered a).1 ih
      exact h.closed a ha b hab

end Spreadsheet.Graph
