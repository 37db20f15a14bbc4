import Graphwright.Files.Generated
import Graphwright.Rust.Declaration
import Graphwright.Rust.Source

/-!
The file of a generated item. An item whose name would hide one that generated code relies on has
none.
-/
namespace Graphwright.Rust

open Code (Artifact)

/-- What a file holds. -/
def kindLabel : Artifact → String
  | .customScalar => "Custom scalar"
  | .enumeration _ => "GraphQL enum"
  | .inputObject _ => "GraphQL input object"
  | .outputObject _ _ _ => "GraphQL object"
  | .interface _ => "GraphQL interface"
  | .fieldSelection _ => "Field selection"
  | .service _ => "Service"

/-- The same in the middle of a sentence. -/
def originLabel : Artifact → String
  | .customScalar => "custom scalar"
  | .enumeration _ => "graphql enum"
  | .inputObject _ => "graphql input object"
  | .outputObject _ _ _ => "graphql object"
  | .interface _ => "graphql interface"
  | .fieldSelection _ => "field selection"
  | .service _ => "service"

/-- A file whose first line is `title`. -/
def titledFile (title : String) (items : List Item) : File :=
  ⟨[" " ++ title, " @generated"], ["missing_docs", "unused_imports"], items⟩

/-- The names that the file of an item defines. -/
def definedNames (item : Code.Model) : List String :=
  item.name :: match item.artifact with
    | .customScalar => [Imports.markerName item]
    | _ => []

/-- The path of an item below the root of the client. -/
def itemPath (home : Namespace) (item : Code.Model) : String :=
  "::".intercalate (home.root :: item.folder ++ [item.name])

/-- The file of an item as data. -/
def itemFile (home : Namespace) (item : Code.Model) : Except Failure File := do
  if item.name ∈ reservedNames then throw (.shadowsPrelude item.name item.typeName)
  let imports ← Imports.of item (itemPath home item) (definedNames item)
  let declarations ← imports.declarations item
  (titledFile (kindLabel item.artifact ++ " for `" ++ item.typeName ++ "`")
    (imports.items ++ declarations)).checked

def itemFilePath (item : Code.Model) : String :=
  Path.join (Path.ofNames item.folder) (moduleName item.name ++ ".rs")

/-- The generated file of an item. -/
def render (home : Namespace) (item : Code.Model) : Except Failure GeneratedFile := do
  let file ← itemFile home item
  return {
    path := itemFilePath item
    content := file.source
    origin := originLabel item.artifact ++ " `" ++ item.typeName ++ "`" }

end Graphwright.Rust
