import Spreadsheet.Number.Shortest
import Spreadsheet.Number.Whole
import Spreadsheet.Text.Blank

/-!
How a number is written. A form says which numbers take an exponent and whether a whole number
keeps a fraction digit; the digits are always the fewest that read back. Formula text uses the
plain form and messages about an expression the numeral form; the display text of a cell writes
whole numbers below a bound as integers and all others in the plain form.
-/
namespace Spreadsheet.Number

structure Form where
  /-- Whether a whole number ends in `.0`. -/
  wholeFraction : Bool
  /-- Whether a number takes an exponent, by the power of ten of its first digit. -/
  takesExponent : Int → Bool

/-- Every digit is written out. -/
def plain : Form := ⟨false, fun _ => false⟩

/-- A number always shows that it is a fraction; very large and very small ones take an exponent. -/
def numeral : Form := ⟨true, fun p => p < -4 || 16 ≤ p⟩

def zeros (n : Nat) : Text := List.replicate n '0'

def natText (n : Nat) : Text := Nat.toDigits 10 n

def intText (n : Int) : Text := if n < 0 then '-' :: natText n.natAbs else natText n.natAbs

theorem natText_ne_nil (n : Nat) : natText n ≠ [] := Nat.toDigits_ne_nil

theorem isDigit_of_mem_natText {n : Nat} {c : Char} (h : c ∈ natText n) : c.isDigit = true :=
  Nat.isDigit_of_mem_toDigits (by decide) (by decide) h

theorem ofDigitChars_natText (n : Nat) : Nat.ofDigitChars 10 (natText n) 0 = n :=
  Nat.ofDigitChars_ten_toDigits

namespace Digits

/-- The power of ten of the first digit. -/
def place (d : Digits) : Int := (natText d.coefficient).length - 1 + d.exponent

def positional (d : Digits) (wholeFraction : Bool) : Text :=
  let ds := natText d.coefficient
  if 0 ≤ d.exponent then
    ds ++ zeros d.exponent.toNat ++ if wholeFraction then ['.', '0'] else []
  else
    let places := (-d.exponent).toNat
    let ds := zeros (places + 1 - ds.length) ++ ds
    ds.take (ds.length - places) ++ '.' :: ds.drop (ds.length - places)

def scientific (d : Digits) : Text :=
  match natText d.coefficient with
  | [] => []
  | c :: rest => c :: (if rest = [] then [] else '.' :: rest) ++ 'e' :: intText d.place

end Digits

namespace Form

def magnitude (n : Form) (d : Digits) : Text :=
  if d.coefficient ≠ 0 ∧ n.takesExponent d.place then d.scientific
  else d.positional n.wholeFraction

def write (n : Form) (x : Float) : Text :=
  match Binary.ofFloat x with
  | .nan => ['N', 'a', 'N']
  | .infinite s => (if s then ['-'] else []) ++ ['i', 'n', 'f']
  | .finite s m e => (if s then ['-'] else []) ++ n.magnitude (shortestDigits m e)

end Form

/-- Whole numbers below this bound are shown as integers. -/
def wholeDisplayBound : Float := 1e15

/-- The display text of a number; an integer has no sign of zero. -/
def display (x : Float) : Text :=
  if isWhole x && x.abs < wholeDisplayBound then intText (truncInt (Binary.ofFloat x))
  else plain.write x

def displayText (x : Float) : String := String.ofList (display x)

end Spreadsheet.Number
