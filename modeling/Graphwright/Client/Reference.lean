import Graphwright.Code.Type
import Graphwright.Registry.Resolve

/-!
References that generated code can use: a union has no concrete type, and an interface has one only
if a hand-written item replaces it.
-/
namespace Graphwright.Client

open Code

def isSubstitutedInterface (r : Registry) (name : String) : Bool :=
  match r.find? name with
  | some t => t.category = .interface && t.isSubstituted
  | none => false

/-- The resolved type of a reference whose base is concrete. -/
def resolveConcrete (r : Registry) (type : Schema.TypeRef) (context : String) :
    Except Failure ResolvedType := do
  let resolved ← r.resolve type context
  match resolved.base with
  | .registered name category _ =>
    if category.isAbstract && !isSubstitutedInterface r name then
      throw (.abstractReference context name category)
    else return resolved
  | .builtin _ => return resolved

/-- The path of the base type's item, if it is not built in. -/
def basePath? (t : ResolvedType) : Option String :=
  match t.base with
  | .builtin _ => none
  | .registered _ _ path => some path

/-- The type whose fields a field of this type lets one select. -/
def selectedObject? (t : ResolvedType) : Option String :=
  match t.base with
  | .registered name .outputObject _ => some name
  | .registered name .interface _ => some name
  | _ => none

/-- The types of a category that get a generated item. -/
def primary (r : Registry) (category : Schema.Category) : List RegisteredType :=
  (r.ofCategory category).filter (!·.isSubstituted)

end Graphwright.Client
