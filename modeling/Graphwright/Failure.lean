import Graphwright.Schema.Basic
import Graphwright.Schema.Lexeme

/-!
Why no client comes out of a schema. Every failure ends the generation; nothing is written after
one.
-/
namespace Graphwright

inductive OperationKind
  | query | mutation
  deriving DecidableEq, Repr

def OperationKind.text : OperationKind → String
  | query => "query"
  | mutation => "mutation"

inductive Failure
  /-- The document is malformed at a place. -/
  | malformedSchema (place : Schema.Position)
  | invalidNamespace (root : String)
  | emptySubstitution (typeName : String)
  | invalidSubstitution (flag : String)
  | malformedConfig
  /-- A file or directory stands in the way or is missing. -/
  | files
  | unknownType (typeName context : String)
  | duplicateDefinition (name : String)
  | duplicateOperation (kind : OperationKind) (name : String)
  | abstractReference (context typeName : String) (category : Schema.Category)
  | inputInResponse (context typeName : String)
  | notAnInterface (context name : String) (category : Schema.Category)
  | unmetInterface (object field own interface required : String)
  | missingInterfaceField (object interface field : String)
  | nameCollision (name first second : String)
  | unknownBackend (name : String)
  | shadowsPrelude (name typeName : String)
  | invalidPath (path : String)
  | invalidType (path : String)
  /-- The declarations that were put together are no file of the target language. -/
  | unparsableCode
  /-- What is implemented is no plain path. -/
  | unprintableInterface
  /-- A name that is no identifier of the target language. -/
  | invalidIdentifier (name : String)
  deriving DecidableEq, Repr

namespace Failure

/-- Whether the run is broken off on the spot. -/
def isAbort : Failure → Bool
  | unprintableInterface => true
  | invalidIdentifier _ => true
  | _ => false

/-- How an interface can still be used. -/
def hint (typeName : String) : Schema.Category → String
  | .interface =>
    "; substitute `" ++ typeName ++ "` with a hand-written type that implements `OutputObject` "
      ++ "(`--substitute " ++ typeName ++ "=PATH` or `[substitutions]` in gqlforge.toml)"
  | _ => ""

def message : Failure → String
  | malformedSchema place =>
    "parse error: schema parse error: Parse error at " ++ toString place.line ++ ":"
      ++ toString place.column
  | invalidNamespace root =>
    "configuration error: invalid namespace `" ++ root ++ "`: expected `::`-separated identifiers"
  | emptySubstitution typeName =>
    "configuration error: substitution for `" ++ typeName ++ "` has an empty path"
  | invalidSubstitution flag =>
    "configuration error: invalid substitution `" ++ flag ++ "`: expected NAME=PATH"
  | malformedConfig => "configuration error"
  | files => "IO error"
  | unknownType typeName context =>
    "unknown type `" ++ typeName ++ "` referenced by " ++ context
  | duplicateDefinition name => "type `" ++ name ++ "` is defined more than once"
  | duplicateOperation kind name => kind.text ++ " `" ++ name ++ "` is defined more than once"
  | abstractReference context typeName category =>
    context ++ " has abstract type `" ++ typeName ++ "` (" ++ category.label
      ++ "), which cannot be decoded" ++ hint typeName category
  | inputInResponse context typeName =>
    "code generation error: " ++ context ++ " has input object type `" ++ typeName
      ++ "`, which cannot appear in a response"
  | notAnInterface context name category =>
    "code generation error: " ++ context ++ ": `" ++ name ++ "` is a " ++ category.label
      ++ ", not an interface"
  | unmetInterface object field own interface required =>
    "code generation error: field `" ++ object ++ "." ++ field ++ ": " ++ own
      ++ "` does not satisfy `" ++ interface ++ "." ++ field ++ ": " ++ required ++ "`"
  | missingInterfaceField object interface field =>
    "type `" ++ object ++ "` implements `" ++ interface ++ "` but has no field `" ++ field ++ "`"
  | nameCollision name first second =>
    "name collision on `" ++ name ++ "`: " ++ first ++ " and " ++ second
  | unknownBackend name => "unknown backend: " ++ name
  | shadowsPrelude name typeName =>
    "`" ++ name ++ "` (generated for `" ++ typeName
      ++ "`) would shadow the Rust prelude item of the same name; substitute `" ++ typeName
      ++ "` with an existing type"
  | invalidPath path => "type mapping error: invalid path `" ++ path ++ "`"
  | invalidType path => "type mapping error: invalid type `" ++ path ++ "`"
  | unparsableCode => "code generation error: generated code does not parse"
  | unprintableInterface => "the implemented interface is not a plain path"
  | invalidIdentifier name => "`" ++ name ++ "` is not an identifier"

end Failure

end Graphwright
