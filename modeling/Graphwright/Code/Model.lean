import Graphwright.Code.Body
import Graphwright.Entries

/-!
Generated items before they are spelled in the target language, with what they refer to.
-/
namespace Graphwright.Code

/-- The items of the client library that generated code uses. -/
inductive RuntimeItem
  | arguments | clientError | decode | fieldSelection | graphQLEnum | hydrated | inputValue | map
  | outputObject | request | scalar | scalarTag | toInputValue | transport | value
  deriving DecidableEq, Repr

namespace RuntimeItem

def all : List RuntimeItem :=
  [arguments, clientError, decode, fieldSelection, graphQLEnum, hydrated, inputValue, map,
    outputObject, request, scalar, scalarTag, toInputValue, transport, value]

def name : RuntimeItem → String
  | arguments => "Arguments"
  | clientError => "ClientError"
  | decode => "decode"
  | fieldSelection => "FieldSelection"
  | graphQLEnum => "GraphQLEnum"
  | hydrated => "Hydrated"
  | inputValue => "InputValue"
  | map => "Map"
  | outputObject => "OutputObject"
  | request => "Request"
  | scalar => "Scalar"
  | scalarTag => "ScalarTag"
  | toInputValue => "ToInputValue"
  | transport => "Transport"
  | value => "Value"

theorem mem_all (item : RuntimeItem) : item ∈ all := by cases item <;> decide

end RuntimeItem

/-- What an item refers to: items of the client library in their fixed order, and the paths of
other items in ascending order, each once. -/
structure Dependencies where
  runtime : List RuntimeItem
  artifacts : List String
  deriving DecidableEq, Repr

namespace Dependencies

def of (items : List RuntimeItem) (paths : List String) : Dependencies where
  runtime := RuntimeItem.all.filter (· ∈ items)
  artifacts := Entries.sortedNames paths

theorem mem_artifacts_of {p : String} {items : List RuntimeItem} {paths : List String} :
    p ∈ (of items paths).artifacts ↔ p ∈ paths := Entries.mem_sortedNames

theorem mem_runtime_of {item : RuntimeItem} {items : List RuntimeItem} {paths : List String} :
    item ∈ (of items paths).runtime ↔ item ∈ items := by
  simp [of, RuntimeItem.mem_all]

end Dependencies

/-- A value of an enum: the constant that holds its wire name, its variant and its accessor. -/
structure EnumValue where
  constant : String
  wireName : String
  variant : String
  accessor : String
  docs : Option String
  deriving DecidableEq, Repr

structure Constant where
  name : String
  value : String
  deriving DecidableEq, Repr

structure Property where
  name : String
  wireName : String
  type : TypeExpr
  docs : Option String
  deriving DecidableEq, Repr

/-- An item with one private store, constants and methods. -/
structure Class where
  constants : List Constant
  methods : List Method
  deriving Repr

/-- The methods that make an object implement an interface. -/
structure Conformance where
  interface : String
  methods : List Method
  deriving Repr

inductive Artifact
  | customScalar
  | enumeration (values : List EnumValue)
  | inputObject (cls : Class)
  | outputObject (properties : List Property) (methods : List Method)
      (conformances : List Conformance)
  | interface (accessors : List Method)
  | fieldSelection (cls : Class)
  | service (cls : Class)
  deriving Repr

/-- The stores of input objects, selection builders and services. -/
def inputStore : String := "data"

def selectionStore : String := "selection"

def transportStore : String := "transport"

/-- A generated item, at `name` in the module `folder` below the root. -/
structure Model where
  folder : List String
  name : String
  typeName : String
  docs : Option String
  dependencies : Dependencies
  artifact : Artifact
  deriving Repr

end Graphwright.Code
