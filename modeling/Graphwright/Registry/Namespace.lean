import Graphwright.Failure
import Graphwright.Text.Words

/-!
The module path under which generated items live, and the paths of those items.
-/
namespace Graphwright

/-- The segments of a `::`-separated path. -/
def pathSegments : List Char → List (List Char)
  | [] => [[]]
  | ':' :: ':' :: cs => [] :: pathSegments cs
  | c :: cs =>
    match pathSegments cs with
    | [] => [[c]]
    | segment :: segments => (c :: segment) :: segments

/-- A path from its segments. -/
def joinPath (segments : List String) : String := "::".intercalate segments

/-- The last segment of a path. -/
def lastSegment (path : String) : String :=
  String.ofList ((pathSegments path.toList).getLastD [])

/-- An ASCII identifier other than `_`. -/
def isPlainIdentifier : List Char → Bool
  | [] => false
  | c :: cs => (c.isAlpha || c = '_') && cs.all (fun d => d.isAlphanum || d = '_')
      && (c ≠ '_' || cs ≠ [])

/-- `crate` and `self` stand only at the head of a path, `super` anywhere. -/
def isNamespaceSegment (index : Nat) (segment : List Char) : Bool :=
  isPlainIdentifier segment
    && (index = 0 || segment ≠ "crate".toList && segment ≠ "self".toList)

def isNamespace (root : String) : Bool :=
  (pathSegments root.toList).zipIdx.all fun (segment, index) => isNamespaceSegment index segment

/-- A path of plain identifiers. -/
structure Namespace where
  root : String
  valid : isNamespace root = true

namespace Namespace

def ofText (root : String) : Except Failure Namespace :=
  if valid : isNamespace root then .ok ⟨root, valid⟩ else .error (.invalidNamespace root)

/-- The namespace used when none is given. -/
def default : Namespace := ⟨"crate::graphql", by decide⟩

def segments (n : Namespace) : List String := (pathSegments n.root.toList).map String.ofList

/-- Where the item for a schema type lives. -/
def typePath (n : Namespace) (typeName : String) : String :=
  joinPath [n.root, "types", Text.capitalize typeName]

/-- Where the selection builder for an object type lives. -/
def selectionPath (n : Namespace) (typeName : String) : String :=
  joinPath [n.root, Text.capitalize typeName ++ "FieldSelection"]

def shortName (n : Namespace) : String := Text.upperCamelCase (lastSegment n.root)

def serviceName (n : Namespace) : String := n.shortName ++ "Service"

def servicePath (n : Namespace) : String := joinPath [n.root, n.serviceName]

end Namespace

end Graphwright
