/-!
GraphQL schema documents: types with their list and non-null layers, the six kinds of definition,
and the names of the root types.
-/
namespace Graphwright.Schema

/-- A type as written, with its list and non-null layers. -/
inductive TypeRef
  | named (name : String)
  | list (element : TypeRef)
  | nonNull (inner : TypeRef)
  deriving DecidableEq, Inhabited, Repr

namespace TypeRef

/-- The name under all layers. -/
def baseName : TypeRef → String
  | named name => name
  | list element => element.baseName
  | nonNull inner => inner.baseName

/-- Whether the outermost layer is non-null. -/
def isNonNull : TypeRef → Bool
  | nonNull _ => true
  | _ => false

def text : TypeRef → String
  | named name => name
  | list element => "[" ++ element.text ++ "]"
  | nonNull inner => inner.text ++ "!"

end TypeRef

/-- An argument or an input object field. The default value is kept as literal text. -/
structure Input where
  name : String
  description : Option String
  type : TypeRef
  default : Option String
  deriving DecidableEq, Repr

/-- A value may be left out if it is nullable or has a default. -/
def Input.isOptional (i : Input) : Bool := !i.type.isNonNull || i.default.isSome

structure Field where
  name : String
  description : Option String
  arguments : List Input
  type : TypeRef
  deriving DecidableEq, Repr

structure EnumValue where
  name : String
  description : Option String
  deriving DecidableEq, Repr

/-- What a definition defines its name to be. -/
inductive Shape
  | scalar
  | enumeration (values : List EnumValue)
  | union (members : List String)
  | inputObject (fields : List Input)
  | object (interfaces : List String) (fields : List Field)
  | interface (fields : List Field)
  deriving DecidableEq, Repr

structure Definition where
  name : String
  description : Option String
  shape : Shape
  deriving DecidableEq, Repr

inductive Category
  | customScalar | enumeration | union | inputObject | outputObject | interface
  deriving DecidableEq, Repr

namespace Category

def label : Category → String
  | customScalar => "custom scalar"
  | enumeration => "enum"
  | union => "union"
  | inputObject => "input object"
  | outputObject => "output object"
  | interface => "interface"

def all : List Category := [customScalar, enumeration, union, inputObject, outputObject, interface]

/-- A value of an abstract type can be of several object types. -/
def isAbstract : Category → Bool
  | union | interface => true
  | _ => false

end Category

def Shape.category : Shape → Category
  | scalar => .customScalar
  | enumeration _ => .enumeration
  | union _ => .union
  | inputObject _ => .inputObject
  | object _ _ => .outputObject
  | interface _ => .interface

def Definition.category (d : Definition) : Category := d.shape.category

/-- The names of the object types whose fields are the operations. -/
structure Roots where
  query : String := "Query"
  mutation : String := "Mutation"
  deriving DecidableEq, Repr

structure Document where
  definitions : List Definition
  roots : Roots
  deriving DecidableEq, Repr

end Graphwright.Schema
