import Graphwright.Client.Arguments
import Graphwright.Client.CustomScalar
import Graphwright.Registry.Build

/-!
Interfaces: one accessor per field, which borrows the field's value.
-/
namespace Graphwright.Client

open Code

/-- A getter that borrows a value of `type`. -/
def borrowing (name : String) (docs : Option String) (type : TypeExpr) (body : List Stmt) : Method where
  name := name
  docs := docs
  isPublic := true
  receiver := .borrowed
  params := []
  returns := .borrowed type
  body := body

/-- The accessors of the fields, each with the path that its type refers to. -/
def accessors (r : Registry) (owner : String) (scope : Members) :
    List Schema.Field → Except Failure (List (Method × Option String))
  | [] => .ok []
  | f :: fs => do
    let context := "field " ++ owner ++ "." ++ f.name
    let resolved ← resolveConcrete r f.type context
    let scope ← scope.claim (memberName f.name) context
    let method := borrowing (memberName f.name) f.description (.ofResolved resolved) []
    return (method, basePath? resolved) :: (← accessors r owner scope fs)

def interface (r : Registry) (t : RegisteredType) (fields : List Schema.Field) :
    Except Failure Model := do
  let accessors ← accessors r t.name (.of t.name) fields
  return primaryModel t (.of [.clientError] (accessors.filterMap (·.2)))
    (.interface (accessors.map (·.1)))

def interfaces (r : Registry) : Except Failure (List Model) :=
  (primary r .interface).mapM fun t => interface r t (Registry.fieldsOf t.definition.shape)

end Graphwright.Client
