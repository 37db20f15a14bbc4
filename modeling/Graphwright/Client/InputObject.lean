import Graphwright.Client.Arguments
import Graphwright.Client.CustomScalar

/-!
Input objects: a constructor that takes the required fields first, and a setter for each optional
field that leaves the object alone when the value is absent.
-/
namespace Graphwright.Client

open Code

/-- A field of an input object as a member of generated code. -/
structure InputMember where
  field : Schema.Input
  constant : String
  param : String
  /-- The type of a present value. -/
  type : TypeExpr
  path : Option String

namespace InputMember

def isOptional (m : InputMember) : Bool := m.field.isOptional

def setterName (m : InputMember) : String := "with_" ++ m.param

def toParam (m : InputMember) : Param :=
  ⟨m.param, if m.isOptional then .nullable m.type else m.type⟩

/-- The entry of a required field. -/
def entry (m : InputMember) : Expr × Expr := (.constant m.constant, .toInput (.var m.param))

def setter (m : InputMember) : Method where
  name := m.setterName
  docs := m.field.description
  isPublic := true
  receiver := .owned
  params := [⟨m.param, .nullable m.type⟩]
  returns := .value .self
  body := [.returnSelfIfAbsent m.param,
    .insert (.field .self inputStore) (.constant m.constant) (.toInput (.var m.param)),
    .return .self]

end InputMember

/-- One constant per field, with distinct names. -/
def inputConstants (scope : Members) : List Schema.Input → Except Failure (List Constant)
  | [] => .ok []
  | f :: fs => do
    let name := Text.shoutyCase f.name
    let scope ← scope.claim name ("field " ++ f.name)
    return ⟨name, f.name⟩ :: (← inputConstants scope fs)

/-- The members for the fields in constructor order. -/
def inputMembers (r : Registry) (owner : String) (params members : Members) :
    List Schema.Input → Except Failure (List InputMember)
  | [] => .ok []
  | f :: fs => do
    let context := "input field " ++ owner ++ "." ++ f.name
    let resolved ← resolveConcrete r f.type context
    let member : InputMember :=
      ⟨f, Text.shoutyCase f.name, memberName f.name, (TypeExpr.ofResolved resolved).nonNull,
        basePath? resolved⟩
    let params ← params.claim member.param context
    let members ← if f.isOptional then members.claim member.setterName context else .ok members
    return member :: (← inputMembers r owner params members fs)

/-- Puts a field in front of the first one that is not to come before it. -/
def placeField (f : Schema.Input) : List Schema.Input → List Schema.Input
  | [] => [f]
  | g :: gs => if f.isOptional ≤ g.isOptional then f :: g :: gs else g :: placeField f gs

/-- The fields sorted by whether they are optional: required fields before optional ones. The sort is
stable, so each group stays in declaration order. -/
def constructorOrder (fields : List Schema.Input) : List Schema.Input :=
  fields.foldr placeField []

/-- The object with its required fields, handed through the setters of the optional ones. -/
def constructed (members : List InputMember) : Expr :=
  (members.filter (·.isOptional)).foldl
    (fun object m => .methodCall object m.setterName [.var m.param])
    (.construct [(inputStore, .arguments ((members.filter (!·.isOptional)).map (·.entry)))])

def inputConstructor (members : List InputMember) : Method where
  name := "new"
  docs := none
  isPublic := true
  receiver := .static
  params := members.map (·.toParam)
  returns := .value .self
  body := [.return (constructed members)]

def inputObject (r : Registry) (t : RegisteredType) (fields : List Schema.Input) :
    Except Failure Model := do
  let constants ← inputConstants (.of t.name) fields
  let members ← inputMembers r t.name (.of (t.name ++ "::new"))
    (.withReserved t.name [("new", "constructor")]) (constructorOrder fields)
  let methods := inputConstructor members :: (members.filter (·.isOptional)).map (·.setter)
  return primaryModel t
    (.of [.arguments, .inputValue, .toInputValue] (members.filterMap (·.path)))
    (.inputObject ⟨constants, methods⟩)

def inputsOf : Schema.Shape → List Schema.Input
  | .inputObject fields => fields
  | _ => []

def inputObjects (r : Registry) : Except Failure (List Model) :=
  (primary r .inputObject).mapM fun t => inputObject r t (inputsOf t.definition.shape)

end Graphwright.Client
