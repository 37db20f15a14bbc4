import Graphwright.Client.Inline
import Graphwright.Client.Interface

/-!
Output objects: a slot per field, a getter that borrows it, a factory that fills the slots from a
response, and for each interface the methods that make the object implement it.
-/
namespace Graphwright.Client

open Code

/-- A field of an output object as a member of generated code. -/
structure OutputMember where
  field : Schema.Field
  name : String
  /-- The type of the stored value. -/
  type : TypeExpr
  decoder : Decoder
  path : Option String

def objectLocal : String := "object"

def fieldsParam : String := "fields"

namespace OutputMember

def property (m : OutputMember) : Property := ⟨m.name, m.field.name, .hydrated m.type, m.field.description⟩

def getter (m : OutputMember) : Method :=
  borrowing m.name m.field.description m.type [.return (.readHydrated m.name m.field.name m.type)]

/-- Decodes the response entry into the slot, which stays unset if there is none. -/
def hydrate (m : OutputMember) : Stmt :=
  .assign (.field (.var objectLocal) m.name)
    (.attempt (.decode (.var fieldsParam) m.field.name m.decoder .optional))

end OutputMember

/-- Whether a field of `owner` is kept on the heap. -/
def isBoxed (r : Registry) (owner : String) (resolved : ResolvedType) : Bool :=
  match inlineObject? r resolved with
  | some target => reaches r target owner
  | none => false

def outputMember (r : Registry) (owner : String) (f : Schema.Field) (resolved : ResolvedType)
    (decoder : Decoder) : OutputMember :=
  let type := TypeExpr.ofResolved resolved
  let boxed := isBoxed r owner resolved
  { field := f
    name := memberName f.name
    type := if boxed then type.onHeap else type
    decoder := if boxed then decoder.onHeap else decoder
    path := basePath? resolved }

def outputMembers (r : Registry) (owner : String) (scope : Members) :
    List Schema.Field → Except Failure (List OutputMember)
  | [] => .ok []
  | f :: fs => do
    let context := "field " ++ owner ++ "." ++ f.name
    let resolved ← resolveConcrete r f.type context
    let scope ← scope.claim (memberName f.name) context
    let decoder ← Decoder.ofResolved context resolved
    return outputMember r owner f resolved decoder :: (← outputMembers r owner scope fs)

def initializerName : String := "unhydrated"

def factoryName : String := "from_map"

/-- The object with all slots unset. -/
def initializer (members : List OutputMember) : Method where
  name := initializerName
  docs := none
  isPublic := false
  receiver := .static
  params := []
  returns := .value .self
  body := [.return (.construct (members.map fun m => (m.name, .unset)))]

def factory (owner : String) (members : List OutputMember) : Method where
  name := factoryName
  docs := some ("Hydrates a `" ++ owner
    ++ "` from a response map. Keys absent from `fields` stay unhydrated.")
  isPublic := true
  receiver := .static
  params := [⟨fieldsParam, .responseMap⟩]
  returns := .fallible .self
  body := .bind objectLocal (members ≠ []) (.associatedCall initializerName [])
    :: members.map (·.hydrate) ++ [.return (.success (.var objectLocal))]

/-- How a field satisfies an accessor: as it is (`false`), or made nullable (`true`). -/
def widening? (own required : ResolvedType) : Option Bool :=
  if own = required then some false
  else
    let widened := match own with
      | .named _ target => ResolvedType.named true target
      | .list _ element => .list true element
    if !own.nullable ∧ required.nullable ∧ widened = required then some true else none

/-- The methods with which an object's fields satisfy the fields of an interface. -/
def conformingMethods (r : Registry) (object interface : String) (own : List Schema.Field) :
    List Schema.Field → Except Failure (List Method)
  | [] => .ok []
  | required :: rest => do
    let field ← match own.find? (·.name = required.name) with
      | some field => .ok field
      | none => .error (.missingInterfaceField object interface required.name)
    let requiredType ← resolveConcrete r required.type
      ("field " ++ interface ++ "." ++ required.name)
    let ownType ← resolveConcrete r field.type ("field " ++ object ++ "." ++ field.name)
    let widened ← match widening? ownType requiredType with
      | some widened => .ok widened
      | none => .error (.unmetInterface object field.name field.type.text interface
        required.type.text)
    let name := memberName required.name
    let method := borrowing name none (.ofResolved requiredType) [.return (.delegate name widened)]
    return method :: (← conformingMethods r object interface own rest)

def conformance (r : Registry) (object : String) (own : List Schema.Field) (interface : String) :
    Except Failure Conformance := do
  let context := "type " ++ object ++ " implements " ++ interface
  match r.find? interface with
  | none => throw (.unknownType interface context)
  | some t => match t.definition.shape with
    | .interface fields =>
      return ⟨t.artifactPath, ← conformingMethods r object interface own fields⟩
    | shape => throw (.notAnInterface context interface shape.category)

def outputObject (r : Registry) (t : RegisteredType) (interfaces : List String)
    (fields : List Schema.Field) : Except Failure Model := do
  let members ← outputMembers r t.name
    (.withReserved t.name [(initializerName, "initializer"), (factoryName, "factory")]) fields
  let conformances ← (interfaces.filter (!isSubstitutedInterface r ·)).mapM
    (conformance r t.name fields)
  let methods := initializer members :: members.map (·.getter) ++ [factory t.name members]
  return primaryModel t
    (.of [.clientError, .decode, .hydrated, .map, .outputObject, .value]
      (members.filterMap (·.path) ++ conformances.map (·.interface)))
    (.outputObject (members.map (·.property)) methods conformances)

def interfacesOf : Schema.Shape → List String
  | .object interfaces _ => interfaces
  | _ => []

def outputObjects (r : Registry) : Except Failure (List Model) :=
  (primary r .outputObject).mapM fun t =>
    outputObject r t (interfacesOf t.definition.shape) (Registry.fieldsOf t.definition.shape)

end Graphwright.Client
