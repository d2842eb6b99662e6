import Spreadsheet.Number.Binary

/-!
Rounding a float to a whole number. Each rule decides from the sign, the whole part of the
magnitude and the remaining fraction; a float without fraction stays as it is, and a result of
zero keeps the sign.
-/
namespace Spreadsheet.Number

/-- A magnitude cut into whole part and fraction `rest / unit`. -/
structure Cut where
  negative : Bool
  whole : Nat
  rest : Nat
  unit : Nat

namespace Cut

def down (c : Cut) : Nat := if c.negative && c.rest != 0 then c.whole + 1 else c.whole

def up (c : Cut) : Nat := if !c.negative && c.rest != 0 then c.whole + 1 else c.whole

def inward (c : Cut) : Nat := c.whole

def nearest (c : Cut) : Nat := if c.unit ≤ 2 * c.rest then c.whole + 1 else c.whole

end Cut

def toWhole (pick : Cut → Nat) (x : Float) : Float :=
  match Binary.ofFloat x with
  | .finite s m e =>
    if 0 ≤ e then x
    else
      let unit := twoTo (-e).toNat
      signed s (pick ⟨s, m / unit, m % unit, unit⟩).toUInt64.toFloat
  | _ => x

def floor : Float → Float := toWhole Cut.down

def ceil : Float → Float := toWhole Cut.up

def trunc : Float → Float := toWhole Cut.inward

/-- To the nearest whole number, a half away from zero. -/
def roundHalf : Float → Float := toWhole Cut.nearest

def isWhole (x : Float) : Bool :=
  match Binary.ofFloat x with
  | .finite _ m e => 0 ≤ e || m % twoTo (-e).toNat == 0
  | _ => false

/-- The whole part of a finite float, toward zero. -/
def truncInt : Binary → Int
  | .finite s m e =>
    let n : Nat := if 0 ≤ e then m * twoTo e.toNat else m / twoTo (-e).toNat
    if s then -n else n
  | _ => 0

/-- The whole part of a float, held between `lo` and `hi`; a float that is no number counts as zero. -/
def truncClamped (lo hi : Int) (x : Float) : Int :=
  match Binary.ofFloat x with
  | .nan => 0
  | .infinite s => if s then lo else hi
  | b => max lo (min hi (truncInt b))

theorem truncClamped_mem {lo hi : Int} (h₀ : lo ≤ 0) (h₁ : 0 ≤ hi) (x : Float) :
    lo ≤ truncClamped lo hi x ∧ truncClamped lo hi x ≤ hi := by
  unfold truncClamped
  split
  · exact ⟨h₀, h₁⟩
  · split <;> omega
  · omega

/-- `base` to the power `n` by repeated squaring, starting from `acc`. -/
def powerFrom (acc base : Float) (n : Nat) : Float :=
  let acc := if n % 2 = 1 then acc * base else acc
  if n / 2 = 0 then acc else powerFrom acc (base * base) (n / 2)
termination_by n

def powerOfTen (n : Nat) : Float := powerFrom 1 10 n

end Spreadsheet.Number
