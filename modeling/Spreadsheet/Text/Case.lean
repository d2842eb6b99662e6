import Spreadsheet.Text.Case.Table

/-!
Upper and lower case of whole texts, by the full Unicode mappings: one character may become
several, and a capital sigma that ends a word takes its final small form.
-/
namespace Spreadsheet.Text

def inRanges (rs : List (Nat × Nat)) (c : Char) : Bool :=
  rs.any fun r => r.1 ≤ c.toNat && c.toNat ≤ r.2

def mapCase (runs : List CaseRun) (expansions : List (Nat × List Nat)) (c : Char) : List Char :=
  match expansions.lookup c.toNat with
  | some cs => cs.map Char.ofNat
  | none =>
    match runs.find? (·.covers c.toNat) with
    | some r => [Char.ofNat (c.toNat + r.shift).toNat]
    | none => [c]

def upperChar (c : Char) : List Char :=
  if c.toNat < 128 then [c.toUpper] else mapCase upperRuns upperExpansions c

def lowerChar (c : Char) : List Char :=
  if c.toNat < 128 then [c.toLower] else mapCase lowerRuns lowerExpansions c

def isCased (c : Char) : Bool := inRanges casedRanges c

def isCaseIgnorable (c : Char) : Bool := inRanges caseIgnorableRanges c

/-- Whether the first character that is not ignorable for case is a cased one. -/
def meetsCased (t : List Char) : Bool :=
  ((t.dropWhile isCaseIgnorable).head?.map isCased).getD false

def upper (t : List Char) : List Char := t.flatMap upperChar

/-- Lower case of a text whose preceding characters, nearest first, are `before`. -/
def lowerFrom (before : List Char) : List Char → List Char
  | [] => []
  | c :: r =>
    (if c = 'Σ' then (if meetsCased before && !meetsCased r then ['ς'] else ['σ']) else lowerChar c)
      ++ lowerFrom (c :: before) r

def lower (t : List Char) : List Char := lowerFrom [] t

/-- Equality up to the case of the 52 plain letters. -/
def sameIgnoringCase (a b : List Char) : Bool := a.map Char.toLower == b.map Char.toLower

@[simp] theorem upper_nil : upper [] = [] := rfl

theorem upper_append (a b : List Char) : upper (a ++ b) = upper a ++ upper b :=
  List.flatMap_append

end Spreadsheet.Text
