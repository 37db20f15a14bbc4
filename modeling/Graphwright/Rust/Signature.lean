import Graphwright.Rust.Imports

/-!
Types of generated items in Rust: stored values, borrowed views of them, and what methods return.
-/
namespace Graphwright.Rust

open Code (TypeExpr Returns)

namespace Imports

/-- The type of a value that is stored or passed on. -/
def ownedType (imports : Imports) : TypeExpr → Except Failure Ty
  | .builtin primitive => .ok (Ty.ofPrimitive primitive)
  | .named path => imports.typeAt path
  | .list element => do return .standard "Vec" [← imports.ownedType element]
  | .nullable inner => do return .standard "Option" [← imports.ownedType inner]
  | .hydrated inner => do return imports.runtimeType .hydrated [← imports.ownedType inner]
  | .boxed inner => do return .standard "Box" [← imports.ownedType inner]
  | .self => .ok .self
  | .responseMap =>
    .ok (.reference false (imports.runtimeType .map [.string, imports.runtimeType .value []]))

/-- The function that a borrowed value is mapped by. -/
def adapter (type function : String) : Option Expr := some (.path [.plain type, .plain function])

/-- The view of a stored value, and the function that turns a reference to the value into it. -/
def borrowedView (imports : Imports) : TypeExpr → Except Failure (Ty × Option Expr)
  | .builtin .text => .ok (.reference false (.standard "str" []), adapter "String" "as_str")
  | .list element => do
    return (.reference false (.slice (← imports.ownedType element)), adapter "Vec" "as_slice")
  | .nullable (.builtin .text) =>
    .ok (.standard "Option" [.reference false (.standard "str" [])], adapter "Option" "as_deref")
  | .nullable (.list element) => do
    return (.standard "Option" [.reference false (.slice (← imports.ownedType element))],
      adapter "Option" "as_deref")
  | .nullable (.boxed value) => do
    return (.standard "Option" [.reference false (← imports.ownedType value)],
      adapter "Option" "as_deref")
  | .nullable inner => do
    return (.standard "Option" [.reference false (← imports.ownedType inner)],
      adapter "Option" "as_ref")
  | .boxed value => do
    let boxed := Ident.plain "boxed"
    return (.reference false (← imports.ownedType value),
      some (.closure boxed none (.borrow (.dereference (.dereference (.name boxed))))))
  | type => do return (.reference false (← imports.ownedType type), none)

/-- The type of a value that may be missing because of a client error. -/
def fallible (imports : Imports) (type : Ty) : Ty :=
  .standard "Result" [type, imports.runtimeType .clientError []]

def returnType (imports : Imports) : Returns → Except Failure Ty
  | .value type => imports.ownedType type
  | .fallible type => do return imports.fallible (← imports.ownedType type)
  | .borrowed type => do return imports.fallible (← imports.borrowedView type).1

end Imports

end Graphwright.Rust
