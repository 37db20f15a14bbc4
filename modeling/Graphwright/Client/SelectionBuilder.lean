import Graphwright.Client.Arguments
import Graphwright.Registry.Build

/-!
Selection builders: for every output object, and every interface that a hand-written item replaces,
an item with one method per field. A field that has fields itself takes the builder of its type.
-/
namespace Graphwright.Client

open Code

def selectionParam : String := "selection"

def builderName (typeName : String) : String := Text.capitalize typeName ++ "FieldSelection"

/-- The parameter that takes the builder at `path`. -/
def nestedParam (path : String) : Param := ⟨selectionParam, .named path⟩

/-- A method of a builder, with what it refers to. -/
structure SelectionMember where
  constant : Constant
  method : Method
  items : List RuntimeItem
  paths : List String

/-- The method that selects a field, given the builder of its type and its arguments. -/
def selectionMember (f : Schema.Field) (own : String) (builder : Option String)
    (plan : ArgumentPlan) : SelectionMember :=
  let constant := Text.shoutyCase f.name
  { constant := ⟨constant, f.name⟩
    method :=
      { name := "with_" ++ memberName f.name
        docs := f.description
        isPublic := true
        receiver := .owned
        params := (builder.map nestedParam).toList ++ plan.params
        returns := .value .self
        body := plan.setup ++ [
          .select (.field .self selectionStore) (.constant constant) plan.map
            (builder.map fun _ => selectionParam),
          .return .self] }
    items := plan.items
    paths := (builder.filter (· ≠ own)).toList ++ plan.paths }

def selectionMembers (r : Registry) (owner : String) (constants members : Members) :
    List Schema.Field → Except Failure (List SelectionMember)
  | [] => .ok []
  | f :: fs => do
    let context := "field " ++ owner ++ "." ++ f.name
    let resolved ← resolveConcrete r f.type context
    let constants ← constants.claim (Text.shoutyCase f.name) context
    let method := "with_" ++ memberName f.name
    let members ← members.claim method context
    let builder := (selectedObject? resolved).map r.home.selectionPath
    let scope : Members := .withReserved (builderName owner ++ "::" ++ method)
      (if builder.isSome then [(selectionParam, "nested selection")] else [])
    let plan ← planArguments r (owner ++ "." ++ f.name) f.arguments
      [selectionParam, argumentsLocal] scope
    let member := selectionMember f (r.home.selectionPath owner) builder plan
    return member :: (← selectionMembers r owner constants members fs)

def selectionBuilder (r : Registry) (t : RegisteredType) : Except Failure Model := do
  let name := builderName t.name
  let members ← selectionMembers r t.name (.of name)
    (.withReserved name [("new", "constructor"), ("into_selection", "selection accessor")])
    (Registry.fieldsOf t.definition.shape)
  return {
    folder := []
    name
    typeName := t.name
    docs := some ("Selects fields of `" ++ t.name ++ "` for a request.")
    dependencies := .of ([.arguments, .fieldSelection] ++ members.flatMap (·.items))
      (members.flatMap (·.paths))
    artifact := .fieldSelection ⟨members.map (·.constant), members.map (·.method)⟩ }

/-- The types that have a selection builder. -/
def selectable (r : Registry) : List RegisteredType :=
  r.ofCategory .outputObject ++ (r.ofCategory .interface).filter (·.isSubstituted)

def selectionBuilders (r : Registry) : Except Failure (List Model) :=
  (selectable r).mapM (selectionBuilder r)

end Graphwright.Client
