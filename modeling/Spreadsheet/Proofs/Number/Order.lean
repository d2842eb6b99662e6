import Spreadsheet.Library.Choice
import Spreadsheet.Proofs.Number.Between

/-!
The comparisons of floats as one partial order. A condition compares two numbers by asking which of
them is the smaller, an expression by the operator itself; both read the same four outcomes.
-/
namespace Spreadsheet

open Float.Model
open Expression (Comparison)

namespace Number

variable {x y : Float}

/-- The outcome of a comparison: less, equal, greater, or none where one of the two is no number. -/
def order (x y : Float) : Option Ordering := x.toModel.unpack.compare y.toModel.unpack

open UnpackedFloat in
theorem compare_swap (u v : UnpackedFloat) : v.compare u = (u.compare v).map Ordering.swap := by
  have hscale (m m' : Nat) (e e' : Int) : (compare e' e).then (compare m' m) =
      ((compare e e').then (compare m m')).swap := by
    rw [Ordering.swap_then, Std.OrientedOrd.eq_swap (a := e'), Std.OrientedOrd.eq_swap (a := m')]
  match u, v with
  | .notANumber, .notANumber | .notANumber, .infinity _ | .notANumber, .zero _
  | .notANumber, .finite .. | .infinity _, .notANumber | .zero _, .notANumber
  | .finite .., .notANumber | .zero _, .zero _ => rfl
  | .infinity s, .infinity s' => cases s <;> cases s' <;> rfl
  | .infinity s, .zero _ | .infinity s, .finite .. | .zero _, .infinity s
  | .finite .., .infinity s | .zero _, .finite s _ _ _ | .finite s _ _ _, .zero _ =>
    cases s <;> rfl
  | .finite s m e _, .finite s' m' e' _ =>
    cases s <;> cases s' <;> simp [UnpackedFloat.compare, hscale m m' e e']

theorem order_swap (x y : Float) : order y x = (order x y).map Ordering.swap :=
  compare_swap _ _

theorem lt_iff_order : x < y ↔ order x y = some .lt := lt_iff

theorem beq_eq_order (x y : Float) : (x == y) = (order x y == some .eq) := rfl

theorem le_iff_order : x ≤ y ↔ (order x y).any Ordering.isLE = true := by
  change decide (x.toModel ≤ y.toModel) = true ↔ _
  rw [decide_eq_true_iff]
  rfl

end Number

namespace Condition

open Number

/-- Asking in turn for less, equal and greater finds the outcome. -/
theorem compareNumbers_eq_order (x y : Float) : compareNumbers x y = order x y := by
  unfold compareNumbers
  rw [beq_eq_order]
  simp only [lt_iff_order, order_swap x y]
  rcases order x y with _ | _ | _ | _ <;> rfl

theorem holds_compareNumbers (op : Comparison) (x y : Float) :
    holds op (compareNumbers x y) = op.ofNumbers x y := by
  rw [compareNumbers_eq_order]
  cases op with
  | equal | notEqual => rfl
  | lessThan | lessEqual | greaterThan | greaterEqual =>
    simp only [holds, Comparison.ofNumbers, lt_iff_order, le_iff_order, order_swap x y]
    rcases order x y with _ | _ | _ | _ <;> rfl

end Condition

end Spreadsheet
