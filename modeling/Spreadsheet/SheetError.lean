import Spreadsheet.Range

/-!
Texts that are refused as a name of cells, and pastes that are refused, with their wording.
-/
namespace Spreadsheet

inductive SheetError where
  | reference (text : String)
  | range (text : String)
  | key (text : String)
  | pasteTooLarge (source : Range) (limit : Nat)
  | pasteOffGrid (source : Range) (target : Cell)
  deriving DecidableEq

namespace SheetError

def message : SheetError → String
  | .reference t => "Invalid cell reference: " ++ t
  | .range t => "Invalid cell range: " ++ t
  | .key t => "Invalid cell key: " ++ t
  | .pasteTooLarge source limit =>
    "Cannot paste " ++ String.ofList source.text ++ ": more than " ++ toString limit ++ " cells"
  | .pasteOffGrid source target =>
    "Pasting " ++ String.ofList source.text ++ " at " ++ String.ofList target.text
      ++ " leaves the grid"

end SheetError

def Reference.parse (s : String) : Except SheetError Reference :=
  match Reference.read? s.toList with
  | some r => .ok r
  | none => .error (.reference s)

def Range.parse (s : String) : Except SheetError Range :=
  match Range.read? s.toList with
  | some r => .ok r
  | none => .error (.range s)

def Cell.parseKey (s : String) : Except SheetError Cell :=
  match Cell.readKey? s.toList with
  | some c => .ok c
  | none => .error (.key s)

end Spreadsheet
