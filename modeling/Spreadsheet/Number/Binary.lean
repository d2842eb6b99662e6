/-!
A float read as sign, significand and exponent, all exact. The finite value is the significand
times two to the exponent; both are taken from the bit pattern, so that later definitions compute
with natural numbers only.
-/
namespace Spreadsheet.Number

/-- Two to the power `n`. -/
def twoTo (n : Nat) : Nat := Nat.pow 2 n

/-- Ten to the power `n`. -/
def tenTo (n : Nat) : Nat := Nat.pow 10 n

@[simp] theorem twoTo_zero : twoTo 0 = 1 := rfl

@[simp] theorem tenTo_zero : tenTo 0 = 1 := rfl

theorem twoTo_pos (n : Nat) : 0 < twoTo n := Nat.pow_pos (by decide)

theorem tenTo_pos (n : Nat) : 0 < tenTo n := Nat.pow_pos (by decide)

inductive Binary where
  | nan
  | infinite (negative : Bool)
  | finite (negative : Bool) (significand : Nat) (exponent : Int)
  deriving DecidableEq, Repr

namespace Binary

/-- The place of the leading bit of a normal significand, which the bit pattern leaves out. -/
def hiddenBit : Nat := 0x10000000000000

def ofBits (bits : Nat) : Binary :=
  let negative := bits.testBit 63
  let exponent : Nat := bits / hiddenBit % 2048
  let fraction : Nat := bits % hiddenBit
  if exponent = 2047 then
    if fraction = 0 then .infinite negative else .nan
  else if exponent = 0 then .finite negative fraction (-1074)
  else .finite negative (hiddenBit + fraction) ((exponent : Int) - 1075)

def ofFloat (x : Float) : Binary := ofBits x.toBits.toNat

theorem ofBits_significand_lt {bits : Nat} {s : Bool} {m : Nat} {e : Int}
    (h : ofBits bits = .finite s m e) : m < 2 * hiddenBit := by
  have hf : bits % hiddenBit < hiddenBit := Nat.mod_lt _ (by decide)
  simp only [ofBits] at h
  split at h
  · split at h <;> cases h
  · split at h <;> (injection h; omega)

end Binary

/-- The nonnegative float `x` with the given sign. -/
def signed (negative : Bool) (x : Float) : Float := if negative then -x else x

end Spreadsheet.Number
