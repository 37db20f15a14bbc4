import Graphwright.Registry.Resolve

/-!
The types and decoders that generated code speaks of, before they are spelled in the target
language. Main statement: the type that a decoder of a resolved reference yields is the type of
that reference, also after both have been boxed.
-/
namespace Graphwright.Code

inductive TypeExpr
  | builtin (primitive : Primitive)
  /-- The item at a path. -/
  | named (path : String)
  | list (element : TypeExpr)
  | nullable (inner : TypeExpr)
  /-- A slot that a response may leave unset. -/
  | hydrated (inner : TypeExpr)
  /-- A value kept on the heap. -/
  | boxed (inner : TypeExpr)
  /-- The item whose member the type occurs in. -/
  | self
  /-- The object that a response is. -/
  | responseMap
  deriving DecidableEq, Inhabited, Repr

namespace TypeExpr

/-- The type without an outermost nullable layer. -/
def nonNull : TypeExpr → TypeExpr
  | nullable inner => inner
  | type => type

/-- Boxes what is stored: below a nullable layer, if there is one. -/
def onHeap : TypeExpr → TypeExpr
  | nullable inner => nullable (boxed inner)
  | type => boxed type

/-- The type of the values that a reference stands for. -/
def ofResolved : ResolvedType → TypeExpr
  | .named isNullable (.builtin primitive) =>
    if isNullable then nullable (builtin primitive) else builtin primitive
  | .named isNullable (.registered _ _ path) =>
    if isNullable then nullable (named path) else named path
  | .list isNullable element =>
    if isNullable then nullable (list (ofResolved element)) else list (ofResolved element)

end TypeExpr

/-- How a response value becomes a value of the client. -/
inductive Decoder
  | scalar (primitive : Primitive)
  | enumeration (path : String)
  | object (path : String)
  | customScalar (path : String)
  | list (element : Decoder)
  | nullable (inner : Decoder)
  | boxed (inner : Decoder)
  deriving DecidableEq, Inhabited, Repr

namespace Decoder

/-- Boxes what is decoded, where `TypeExpr.onHeap` boxes the type. -/
def onHeap : Decoder → Decoder
  | nullable inner => nullable (boxed inner)
  | decoder => boxed decoder

/-- The type of the decoded values. -/
def type : Decoder → TypeExpr
  | scalar primitive => .builtin primitive
  | enumeration path => .named path
  | object path => .named path
  | customScalar path => .named path
  | list element => .list element.type
  | nullable inner => .nullable inner.type
  | boxed inner => .boxed inner.type

theorem type_onHeap (d : Decoder) : d.onHeap.type = d.type.onHeap := by
  cases d <;> rfl

/-- The decoder of values of a named type: unions have none, and input objects never occur in a
response. -/
def ofTarget (context : String) : Target → Except Failure Decoder
  | .builtin primitive => .ok (scalar primitive)
  | .registered name category path =>
    match category with
    | .enumeration => .ok (enumeration path)
    | .outputObject => .ok (object path)
    | .interface => .ok (object path)
    | .customScalar => .ok (customScalar path)
    | .inputObject => .error (.inputInResponse context name)
    | .union => .error (.abstractReference context name .union)

def ofResolved (context : String) : ResolvedType → Except Failure Decoder
  | .named isNullable target => do
    let decoder ← ofTarget context target
    return if isNullable then nullable decoder else decoder
  | .list isNullable element => do
    let decoder := list (← ofResolved context element)
    return if isNullable then nullable decoder else decoder

theorem type_ofTarget {context : String} {target : Target} {d : Decoder}
    (h : ofTarget context target = .ok d) : d.type = TypeExpr.ofResolved (.named false target) := by
  cases target with
  | builtin p => cases h; rfl
  | registered name category path => cases category <;> cases h <;> rfl

theorem type_ofResolved {context : String} {t : ResolvedType} {d : Decoder}
    (h : ofResolved context t = .ok d) : d.type = TypeExpr.ofResolved t := by
  induction t generalizing d with
  | named isNullable target =>
    simp only [ofResolved] at h
    cases ht : ofTarget context target with
    | error f => rw [ht] at h; cases h
    | ok d' =>
      rw [ht] at h
      have hd := type_ofTarget ht
      cases h
      cases target <;> cases isNullable <;> simp_all [type, TypeExpr.ofResolved]
  | list isNullable element ih =>
    simp only [ofResolved] at h
    cases he : ofResolved context element with
    | error f => rw [he] at h; cases h
    | ok d' =>
      rw [he] at h
      have hd := ih he
      cases h
      cases isNullable <;> simp_all [type, TypeExpr.ofResolved]

end Decoder

end Graphwright.Code
