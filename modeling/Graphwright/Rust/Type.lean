import Graphwright.Registry.Basic
import Graphwright.Rust.Token

/-!
Types of Rust as generated code spells them.
-/
namespace Graphwright.Rust

/-- What kind of type a text spells, as far as it decides where the type may stand. -/
inductive TypeForm
  /-- A path, as for `a::b<C>`. -/
  | path
  /-- A path below a type in angle brackets. -/
  | qualified
  /-- Bounds that a plus joins; they need brackets behind a reference. -/
  | bounds
  /-- A type that no value has, written as an exclamation mark. -/
  | never
  | other
  deriving DecidableEq, Repr

inductive Ty
  /-- A path with type arguments. -/
  | path (qualifier : List Ident) (name : Ident) (args : List Ty)
  | reference (isStatic : Bool) (elem : Ty)
  | slice (elem : Ty)
  /-- A type given by its tokens. -/
  | verbatim (form : TypeForm) (tokens : List Token)
  deriving Repr

namespace Ty

/-- A type that is one name. -/
def named (i : Ident) : Ty := path [] i []

/-- A type of the standard library. -/
def standard (name : String) (args : List Ty) : Ty := path [] (.plain name) args

def self : Ty := standard "Self" []

def string : Ty := standard "String" []

/-- The text that lives as long as the program. -/
def staticText : Ty := reference true (standard "str" [])

def ofPrimitive : Primitive → Ty
  | .integer => standard "i32" []
  | .float => standard "f64" []
  | .boolean => standard "bool" []
  | .text => string

def form : Ty → TypeForm
  | path _ _ _ => .path
  | verbatim form _ => form
  | reference _ _ => .other
  | slice _ => .other

mutual

/-- Whether the type is well-formed where it stands: bounds that a plus joins do not follow a
reference, and a name is no keyword. -/
def isValid : Ty → Bool
  | path _ name args => name ≠ .plain "try" && areValid args
  | reference _ elem => elem.form ≠ .bounds && isValid elem
  | slice elem => isValid elem
  | verbatim _ _ => true

def areValid : List Ty → Bool
  | [] => true
  | t :: ts => isValid t && areValid ts

end

end Ty

end Graphwright.Rust
