import Graphwright.Client.Reference
import Graphwright.Code.Model

/-!
Items of schema types, and the marker that a custom scalar gets.
-/
namespace Graphwright.Client

open Code

/-- The module of the items that stand for schema types. -/
def typesFolder : String := "types"

/-- The item of a schema type. -/
def primaryModel (t : RegisteredType) (dependencies : Dependencies) (artifact : Artifact) : Model where
  folder := [typesFolder]
  name := Text.capitalize t.name
  typeName := t.name
  docs := t.definition.description
  dependencies := dependencies
  artifact := artifact

def customScalars (r : Registry) : List Model :=
  (primary r .customScalar).map fun t =>
    primaryModel t (.of [.scalar, .scalarTag] []) .customScalar

end Graphwright.Client
