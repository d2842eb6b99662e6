import Spreadsheet.Text.Blank

/-!
Styles of cells. A colour is written as six hexadecimal digits; in reading one, a pair of digits
may also be a plus sign and one digit.
-/
namespace Spreadsheet

structure Colour where
  red : UInt8
  green : UInt8
  blue : UInt8
  deriving DecidableEq, Repr

namespace Colour

def hexDigit? (c : Char) : Option Nat :=
  if c.isDigit then some (c.toNat - '0'.toNat)
  else if 'a' ≤ c ∧ c ≤ 'f' then some (c.toNat - 'a'.toNat + 10)
  else if 'A' ≤ c ∧ c ≤ 'F' then some (c.toNat - 'A'.toNat + 10)
  else none

def readPair? (c d : Char) : Option UInt8 :=
  if c = '+' then (hexDigit? d).map Nat.toUInt8
  else do return (16 * (← hexDigit? c) + (← hexDigit? d)).toUInt8

def read? (t : Text) : Option Colour :=
  match t.dropWhile (· == '#') with
  | [r₁, r₀, g₁, g₀, b₁, b₀] => do
    return ⟨← readPair? r₁ r₀, ← readPair? g₁ g₀, ← readPair? b₁ b₀⟩
  | _ => none

def hexChar (d : Nat) : Char := if d < 10 then Char.ofNat (48 + d) else Char.ofNat (55 + d)

def pairText (b : UInt8) : Text := [hexChar (b.toNat / 16), hexChar (b.toNat % 16)]

def hexText (c : Colour) : Text := pairText c.red ++ pairText c.green ++ pairText c.blue

def text (c : Colour) : Text := '#' :: c.hexText

end Colour

inductive Alignment where
  /-- Text stands left and numbers right. -/
  | general
  | left
  | center
  | right
  deriving DecidableEq, Repr

structure Style where
  bold : Bool := false
  italic : Bool := false
  underline : Bool := false
  alignment : Alignment := .general
  textColour : Option Colour := none
  backgroundColour : Option Colour := none
  deriving DecidableEq, Repr

namespace Style

def standard : Style := {}

def isStandard (s : Style) : Bool := s == standard

theorem isStandard_iff (s : Style) : s.isStandard = true ↔ s = standard := by simp [isStandard]

end Style

end Spreadsheet
