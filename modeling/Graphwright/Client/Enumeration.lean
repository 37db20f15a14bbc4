import Graphwright.Client.CustomScalar
import Graphwright.Client.Members
import Graphwright.Text.Words

/-!
Enums: a constant with the wire name, a variant and an accessor for each value. A variant never has
the name of its constant.
-/
namespace Graphwright.Client

open Code

/-- The three scopes of names of an enum. -/
structure EnumScopes where
  constants : Members
  variants : Members
  accessors : Members

def EnumScopes.of (name : String) : EnumScopes where
  constants := .of name
  variants := .of name
  accessors := .withReserved name [("options", "options accessor")]

def enumValue (v : Schema.EnumValue) : EnumValue :=
  let constant := Text.shoutyCase v.name
  let variant := Text.upperCamelCase v.name
  { constant
    wireName := v.name
    variant := if variant = constant then variant ++ "Value" else variant
    accessor := Text.snakeCase v.name
    docs := v.description }

def EnumScopes.claim (scopes : EnumScopes) (v : EnumValue) : Except Failure EnumScopes := do
  let claimant := "value " ++ v.wireName
  return {
    constants := ← scopes.constants.claim v.constant claimant
    variants := ← scopes.variants.claim v.variant claimant
    accessors := ← scopes.accessors.claim v.accessor claimant }

def enumValues (scopes : EnumScopes) : List Schema.EnumValue → Except Failure (List EnumValue)
  | [] => .ok []
  | v :: vs => do
    let scopes ← scopes.claim (enumValue v)
    return enumValue v :: (← enumValues scopes vs)

def enumeration (t : RegisteredType) (values : List Schema.EnumValue) : Except Failure Model := do
  let values ← enumValues (.of t.name) values
  return primaryModel t (.of [.graphQLEnum, .inputValue, .toInputValue] []) (.enumeration values)

def valuesOf : Schema.Shape → List Schema.EnumValue
  | .enumeration values => values
  | _ => []

def enumerations (r : Registry) : Except Failure (List Model) :=
  (primary r .enumeration).mapM fun t => enumeration t (valuesOf t.definition.shape)

end Graphwright.Client
