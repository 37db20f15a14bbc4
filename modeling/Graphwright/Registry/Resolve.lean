import Graphwright.Registry.Basic

/-!
Type references resolved against a registry. Every layer of a resolved type carries its own
nullability. Main statement: a reference resolves iff its innermost name is built in or registered.
-/
namespace Graphwright

/-- What the innermost name of a reference stands for. -/
inductive Target
  | builtin (primitive : Primitive)
  | registered (name : String) (category : Schema.Category) (path : String)
  deriving DecidableEq, Repr

inductive ResolvedType
  | named (nullable : Bool) (target : Target)
  | list (nullable : Bool) (element : ResolvedType)
  deriving DecidableEq, Repr

namespace ResolvedType

def nullable : ResolvedType → Bool
  | named nullable _ => nullable
  | list nullable _ => nullable

/-- The target under all layers. -/
def base : ResolvedType → Target
  | named _ target => target
  | list _ element => element.base

def isList : ResolvedType → Bool
  | list _ _ => true
  | named _ _ => false

/-- The category of the base type; built-in scalars have none. -/
def baseCategory? (t : ResolvedType) : Option Schema.Category :=
  match t.base with
  | .builtin _ => none
  | .registered _ category _ => some category

end ResolvedType

namespace Registry

def target? (r : Registry) (name : String) : Option Target :=
  match Primitive.ofName? name with
  | some primitive => some (.builtin primitive)
  | none => (r.find? name).map fun t => .registered t.name t.category t.artifactPath

/-- The layers of a type whose outermost one is nullable unless a non-null layer says otherwise. -/
def resolveLayer (r : Registry) (context : String) (nullable : Bool) :
    Schema.TypeRef → Except Failure ResolvedType
  | .nonNull inner => r.resolveLayer context false inner
  | .list element => (r.resolveLayer context true element).map (.list nullable)
  | .named name =>
    match r.target? name with
    | some target => .ok (.named nullable target)
    | none => .error (.unknownType name context)

/-- Resolves every layer; `context` says where the reference stands. -/
def resolve (r : Registry) (type : Schema.TypeRef) (context : String) :
    Except Failure ResolvedType :=
  r.resolveLayer context true type

/-- Whether a reference is a list or names anything but a built-in scalar. -/
def isNonScalar : Schema.TypeRef → Bool
  | .nonNull inner => isNonScalar inner
  | .list _ => true
  | .named name => (Primitive.ofName? name).isNone

def allowsNull (type : Schema.TypeRef) : Bool := !type.isNonNull

theorem resolveLayer_isOk (r : Registry) (context : String) (nullable : Bool)
    (type : Schema.TypeRef) :
    (∃ t, r.resolveLayer context nullable type = .ok t) ↔ (r.target? type.baseName).isSome := by
  induction type generalizing nullable with
  | named name =>
    simp only [resolveLayer, Schema.TypeRef.baseName]
    cases h : r.target? name <;> simp
  | list element ih =>
    simp only [resolveLayer, Schema.TypeRef.baseName, ← ih true]
    cases r.resolveLayer context true element <;> simp [Except.map]
  | nonNull inner ih => simpa [resolveLayer, Schema.TypeRef.baseName] using ih false

end Registry

end Graphwright
