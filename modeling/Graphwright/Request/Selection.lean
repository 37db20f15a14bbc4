import Graphwright.Request.InputValue

/-!
What a response is to hold: fields under distinct names, in the order in which they were first
selected.
-/
namespace Graphwright

/-- A selected field. If it holds an object, the fields of that are selected in turn. -/
inductive SelectedField
  | mk (arguments : Arguments) (nested : Option (List (String × SelectedField)))

abbrev Selection := List (String × SelectedField)

def SelectedField.arguments : SelectedField → Arguments
  | mk arguments _ => arguments

def SelectedField.nested : SelectedField → Option Selection
  | mk _ nested => nested

namespace Selection

/-- Selects a field. Arguments and nested selection of an earlier call for it are given up. -/
def select (selection : Selection) (name : String) (arguments : Arguments)
    (nested : Option Selection) : Selection :=
  Entries.put name (.mk arguments nested) selection

mutual
/-- A field as it stands in the document. -/
def fieldText (name : String) : SelectedField → String
  | .mk arguments none => name ++ arguments.text
  | .mk arguments (some nested) =>
    name ++ arguments.text ++ " \x7b" ++ String.join (fieldTexts nested) ++ " \x7d"

def fieldTexts : List (String × SelectedField) → List String
  | [] => []
  | (name, field) :: fields => (" " ++ fieldText name field) :: fieldTexts fields
end

def text (selection : Selection) : String :=
  "\x7b" ++ String.join (fieldTexts selection) ++ " \x7d"

end Selection

end Graphwright
