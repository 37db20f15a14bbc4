import Graphwright.Client.SelectionBuilder

/-!
The service: one method per operation, which sends the request and decodes the entry of the
response that is named for the operation.
-/
namespace Graphwright.Client

open Code

def requestLocal : String := "request"

def responseLocal : String := "response"

/-- A method of the service, with what it refers to. -/
structure ServiceMember where
  method : Method
  items : List RuntimeItem
  paths : List String

def serviceMember (kind : OperationKind) (f : Schema.Field) (resolved : ResolvedType)
    (builder : Option String) (plan : ArgumentPlan) (decoder : Decoder) : ServiceMember where
  method :=
    { name := kind.text ++ "_" ++ memberName f.name
      docs := f.description
      isPublic := true
      receiver := .borrowed
      params := (builder.map nestedParam).toList ++ plan.params
      returns := .fallible (.ofResolved resolved)
      body := plan.setup ++ [
        .bind requestLocal false
          (.attempt (.request kind f.name plan.map (builder.map fun _ => selectionParam))),
        .bind responseLocal false (.attempt (.send (.var requestLocal))),
        .return (.decode (.borrow (.var responseLocal)) f.name decoder .required)] }
  items := plan.items
  paths := (basePath? resolved).toList ++ builder.toList ++ plan.paths

def operationMember (r : Registry) (service : String) (kind : OperationKind) (f : Schema.Field) :
    Except Failure ServiceMember := do
  let context := kind.text ++ " " ++ f.name
  let resolved ← resolveConcrete r f.type context
  let builder := (selectedObject? resolved).map r.home.selectionPath
  let scope : Members :=
    .withReserved (service ++ "::" ++ kind.text ++ "_" ++ memberName f.name)
      (if builder.isSome then [(selectionParam, "selection")] else [])
  let plan ← planArguments r context f.arguments
    [selectionParam, argumentsLocal, requestLocal, responseLocal] scope
  let decoder ← Decoder.ofResolved context resolved
  return serviceMember kind f resolved builder plan decoder

def serviceMembers (r : Registry) (service : String) (scope : Members) :
    List (OperationKind × Schema.Field) → Except Failure (List ServiceMember)
  | [] => .ok []
  | (kind, f) :: rest => do
    let member ← operationMember r service kind f
    let scope ← scope.claim member.method.name (kind.text ++ " " ++ f.name)
    return member :: (← serviceMembers r service scope rest)

/-- The operations, queries first. -/
def operations (r : Registry) : List (OperationKind × Schema.Field) :=
  r.queries.map (.query, ·) ++ r.mutations.map (.mutation, ·)

def service (r : Registry) : Except Failure Model := do
  let name := r.home.serviceName
  let members ← serviceMembers r name (.withReserved name [("new", "constructor")]) (operations r)
  return {
    folder := []
    name
    typeName := r.home.root
    docs := some "Typed entry points for every query and mutation of the schema."
    dependencies := .of
      ([.arguments, .clientError, .decode, .request, .transport, .value]
        ++ members.flatMap (·.items))
      (members.flatMap (·.paths))
    artifact := .service ⟨[], members.map (·.method)⟩ }

end Graphwright.Client
