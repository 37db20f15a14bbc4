import Graphwright.Code.Model
import Graphwright.Entries
import Graphwright.Rust.Syntax
import Graphwright.Rust.TypeText

/-!
What a file imports, and how it spells the paths it refers to. A plain path is imported under its
last segment if no other item in scope has that name; any other path is spelled out wherever it
occurs.
-/
namespace Graphwright.Rust

open Code (RuntimeItem)

/-- The library that generated code depends on. -/
def clientLibrary : Ident := .plain "gqlforge_client"

/-- Names that generated code expects to mean what they mean without imports. -/
def reservedNames : List String :=
  ["Box", "Clone", "Copy", "Debug", "Default", "Eq", "Err", "Hash", "None", "Ok", "Option",
    "PartialEq", "Result", "Self", "Some", "String", "ToString", "Vec"]

/-- The segments of a text between double colons, if there are several and each consists of ASCII
letters, digits and underscores. -/
def plainSegments? (path : String) : Option (List String) :=
  let segments := (pieces path.toList).map String.ofList
  if segments.length > 1 ∧ segments.all isPlain then some segments else none
where
  pieces : List Char → List (List Char)
    | ':' :: ':' :: cs => [] :: pieces cs
    | c :: cs =>
      match pieces cs with
      | piece :: rest => (c :: piece) :: rest
      | [] => [[c]]
    | [] => [[]]
  isPlain (segment : String) : Bool :=
    segment ≠ "" && segment.toList.all fun c => c.isAlphanum || c = '_'

/-- The last segment of a path that can be imported. -/
def importableTail? (path : String) : Option String := do (← plainSegments? path).getLast?

/-- A segment of a path, which is a name or a keyword that stands for a place. -/
def pathSegment? (segment : String) : Option Ident :=
  let i := Ident.plain segment
  if Text.isIdentifier segment.toList ∧ segment ≠ "_" ∧ i.isMember then some i else none

/-- The path that plain segments form. -/
def path? (path : String) : Option (List Ident) := do (← plainSegments? path).mapM pathSegment?

structure Imports where
  /-- Names that are in scope. -/
  taken : List String
  runtime : List RuntimeItem
  uses : List (List Ident)
  /-- How known paths are spelled. -/
  spellings : List (String × Ty)
  deriving Repr

namespace Imports

/-- Makes a path known: imports it if its name is free. -/
def know (imports : Imports) (path : String) : Except Failure Imports :=
  if (Entries.get? path imports.spellings).isSome then .ok imports
  else match (importableTail? path).filter (· ∉ imports.taken) with
  | some tail =>
    match path? path with
    | some segments =>
      .ok { imports with
        taken := tail :: imports.taken
        uses := imports.uses ++ [segments]
        spellings := Entries.put path (.named (.plain tail)) imports.spellings }
    | none => .error (.invalidPath path)
  | none =>
    match TypeText.ofText? path with
    | some type => .ok { imports with spellings := Entries.put path type imports.spellings }
    | none => .error (.invalidType path)

/-- The imports of the file that defines an item at `ownPath` and the names in `defined`. Items of
the client library take their names before other items do. -/
def of (item : Code.Model) (ownPath : String) (defined : List String) :
    Except Failure Imports := do
  let own ← Ident.escaped item.name
  let before := reservedNames ++ defined
  let runtime := item.dependencies.runtime.filter (·.name ∉ before)
  item.dependencies.artifacts.foldlM know
    ⟨before ++ runtime.map RuntimeItem.name, runtime, [], [(ownPath, .named own)]⟩

/-- How an item of the client library is spelled. -/
def runtimePath (imports : Imports) (item : RuntimeItem) : List Ident :=
  if item ∈ imports.runtime then [.plain item.name] else [clientLibrary, .plain item.name]

def runtimeType (imports : Imports) (item : RuntimeItem) (args : List Ty) : Ty :=
  .path (if item ∈ imports.runtime then [] else [clientLibrary]) (.plain item.name) args

/-- How a path is spelled. -/
def typeAt (imports : Imports) (path : String) : Except Failure Ty :=
  match Entries.get? path imports.spellings with
  | some type => .ok type
  | none =>
    match TypeText.ofText? path with
    | some type => .ok type
    | none => .error (.invalidType path)

/-- The items that import what the file needs. -/
def items (imports : Imports) : List Item :=
  let names := imports.runtime.map fun item => Ident.plain item.name
  (if names = [] then [] else [.use false [clientLibrary] names])
    ++ imports.uses.map fun segments => .use false segments.dropLast segments.getLast?.toList

end Imports

end Graphwright.Rust
