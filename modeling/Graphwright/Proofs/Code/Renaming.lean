import Graphwright.Code.Model
import Graphwright.Proofs.Entries

/-!
# Renamed paths

What generated code looks like once the paths in its types, in its decoders and among what it
depends on have been replaced by others. A decoder and a type of a reference follow the reference.
-/
namespace Graphwright

/-- The target at another path. -/
def Target.rename (f : String → String) : Target → Target
  | .builtin primitive => .builtin primitive
  | .registered name category path => .registered name category (f path)

def ResolvedType.rename (f : String → String) : ResolvedType → ResolvedType
  | named nullable target => named nullable (target.rename f)
  | list nullable element => list nullable (element.rename f)

@[simp] theorem ResolvedType.base_rename (f : String → String) (t : ResolvedType) :
    (t.rename f).base = t.base.rename f := by
  induction t with
  | named isNullable target => rfl
  | list isNullable element ih => exact ih

@[simp] theorem ResolvedType.nullable_rename (f : String → String) (t : ResolvedType) :
    (t.rename f).nullable = t.nullable := by
  cases t <;> rfl

@[simp] theorem ResolvedType.isList_rename (f : String → String) (t : ResolvedType) :
    (t.rename f).isList = t.isList := by
  cases t <;> rfl

/-- References stay different if what they stand for does. -/
theorem ResolvedType.rename_inj {f : String → String} {t u : ResolvedType}
    (h : t.base.rename f = u.base.rename f → t.base = u.base) :
    t.rename f = u.rename f ↔ t = u := by
  refine ⟨fun e => ?_, fun e => e ▸ rfl⟩
  induction t generalizing u with
  | named isNullable target =>
      cases u with
      | named isNullable' target' =>
          simp only [rename, named.injEq] at e
          exact congrArg₂ named e.1 (h e.2)
      | list isNullable' element' => cases e
  | list isNullable element ih =>
      cases u with
      | named isNullable' target' => cases e
      | list isNullable' element' =>
          simp only [rename, list.injEq] at e
          exact congrArg₂ list e.1 (ih h e.2)

namespace Code

variable (f : String → String)

def TypeExpr.rename : TypeExpr → TypeExpr
  | named path => named (f path)
  | list element => list element.rename
  | nullable inner => nullable inner.rename
  | hydrated inner => hydrated inner.rename
  | boxed inner => boxed inner.rename
  | builtin primitive => builtin primitive
  | self => self
  | responseMap => responseMap

def Decoder.rename : Decoder → Decoder
  | scalar primitive => scalar primitive
  | enumeration path => enumeration (f path)
  | object path => object (f path)
  | customScalar path => customScalar (f path)
  | list element => list element.rename
  | nullable inner => nullable inner.rename
  | boxed inner => boxed inner.rename

mutual
@[simp] def Expr.rename : Expr → Expr
  | .field base name => .field base.rename name
  | .arguments entries => .arguments (Expr.renameEntries entries)
  | .toInput value => .toInput value.rename
  | .methodCall receiver method args => .methodCall receiver.rename method (Expr.renameList args)
  | .associatedCall function args => .associatedCall function (Expr.renameList args)
  | .construct fields => .construct (Expr.renameFields fields)
  | .request kind action args selection => .request kind action args.rename selection
  | .send sent => .send sent.rename
  | .attempt value => .attempt value.rename
  | .borrow value => .borrow value.rename
  | .decode source key decoder presence => .decode source.rename key (decoder.rename f) presence
  | .readHydrated property wireName type => .readHydrated property wireName (type.rename f)
  | .success value => .success value.rename
  | .var name => .var name
  | .self => .self
  | .constant name => .constant name
  | .str text => .str text
  | .unset => .unset
  | .delegate getter widened => .delegate getter widened

@[simp] def Expr.renameList : List Expr → List Expr
  | [] => []
  | e :: es => e.rename :: Expr.renameList es

@[simp] def Expr.renameEntries : List (Expr × Expr) → List (Expr × Expr)
  | [] => []
  | (key, value) :: entries => (key.rename, value.rename) :: Expr.renameEntries entries

@[simp] def Expr.renameFields : List (String × Expr) → List (String × Expr)
  | [] => []
  | (name, value) :: fields => (name, value.rename) :: Expr.renameFields fields
end

@[simp] def Stmt.rename : Stmt → Stmt
  | bind name isMutable value => bind name isMutable (value.rename f)
  | assign target value => assign (target.rename f) (value.rename f)
  | insert map key value => insert (map.rename f) (key.rename f) (value.rename f)
  | insertIfPresent map key param => insertIfPresent (map.rename f) (key.rename f) param
  | returnSelfIfAbsent param => returnSelfIfAbsent param
  | select selection field arguments nested =>
    select (selection.rename f) (field.rename f) (arguments.rename f) nested
  | «return» value => «return» (value.rename f)

def Param.rename (p : Param) : Param := { p with type := p.type.rename f }

def Returns.rename : Returns → Returns
  | value type => value (type.rename f)
  | fallible type => fallible (type.rename f)
  | borrowed type => borrowed (type.rename f)

def Method.rename (m : Method) : Method :=
  { m with
    params := m.params.map (·.rename f)
    returns := m.returns.rename f
    body := m.body.map (·.rename f) }

def Property.rename (p : Property) : Property := { p with type := p.type.rename f }

def Class.rename (c : Class) : Class := { c with methods := c.methods.map (·.rename f) }

def Conformance.rename (c : Conformance) : Conformance where
  interface := f c.interface
  methods := c.methods.map (·.rename f)

def Artifact.rename : Artifact → Artifact
  | customScalar => customScalar
  | enumeration values => enumeration values
  | inputObject cls => inputObject (cls.rename f)
  | outputObject properties methods conformances =>
    outputObject (properties.map (·.rename f)) (methods.map (·.rename f))
      (conformances.map (·.rename f))
  | interface accessors => interface (accessors.map (·.rename f))
  | fieldSelection cls => fieldSelection (cls.rename f)
  | service cls => service (cls.rename f)

/-- Paths stay in order, and two that become one are one. -/
def Dependencies.rename (d : Dependencies) : Dependencies where
  runtime := d.runtime
  artifacts := (Dependencies.of [] (d.artifacts.map f)).artifacts

def Model.rename (m : Model) : Model :=
  { m with dependencies := m.dependencies.rename f, artifact := m.artifact.rename f }

/-! ## Types and decoders -/

variable {f}

theorem TypeExpr.rename_ofResolved (t : ResolvedType) :
    (ofResolved t).rename f = ofResolved (t.rename f) := by
  induction t with
  | named isNullable target => cases target <;> cases isNullable <;> rfl
  | list isNullable element ih =>
      cases isNullable <;> simp [ofResolved, ResolvedType.rename, TypeExpr.rename, ih]

@[simp] theorem TypeExpr.rename_nonNull (t : TypeExpr) : t.nonNull.rename f = (t.rename f).nonNull := by
  cases t <;> rfl

@[simp] theorem TypeExpr.rename_onHeap (t : TypeExpr) : t.onHeap.rename f = (t.rename f).onHeap := by
  cases t <;> rfl

@[simp] theorem Decoder.rename_onHeap (d : Decoder) : d.onHeap.rename f = (d.rename f).onHeap := by
  cases d <;> rfl

theorem Decoder.ofTarget_rename (context : String) (target : Target) :
    ofTarget context (target.rename f) = (ofTarget context target).map (·.rename f) := by
  cases target with
  | builtin p => rfl
  | registered name category path => cases category <;> rfl

theorem Decoder.ofResolved_rename (context : String) (t : ResolvedType) :
    ofResolved context (t.rename f) = (ofResolved context t).map (·.rename f) := by
  induction t with
  | named isNullable target =>
      simp only [ofResolved, ResolvedType.rename, ofTarget_rename]
      cases ofTarget context target <;> cases isNullable <;> rfl
  | list isNullable element ih =>
      simp only [ofResolved, ResolvedType.rename, ih]
      cases ofResolved context element <;> cases isNullable <;> rfl

/-! ## Expressions -/

theorem Expr.renameEntries_eq (entries : List (Expr × Expr)) :
    renameEntries f entries = entries.map fun e => (e.1.rename f, e.2.rename f) := by
  induction entries with
  | nil => rfl
  | cons e entries ih => rw [renameEntries, ih, List.map_cons]

theorem Expr.renameFields_eq (fields : List (String × Expr)) :
    renameFields f fields = fields.map fun e => (e.1, e.2.rename f) := by
  induction fields with
  | nil => rfl
  | cons e fields ih => rw [renameFields, ih, List.map_cons]

/-! ## Dependencies -/

namespace Dependencies

/-- Only which paths there are counts. -/
theorem artifacts_congr {items items' : List RuntimeItem} {paths paths' : List String}
    (h : ∀ p, p ∈ paths ↔ p ∈ paths') :
    (Dependencies.of items paths).artifacts = (Dependencies.of items' paths').artifacts :=
  Entries.sortedNames_congr h

theorem rename_of (items : List RuntimeItem) (paths : List String) :
    (Dependencies.of items paths).rename f = Dependencies.of items (paths.map f) := by
  have hartifacts : (Dependencies.of [] ((Dependencies.of items paths).artifacts.map f)).artifacts =
      (Dependencies.of items (paths.map f)).artifacts := by
    refine artifacts_congr fun p => ?_
    simp only [List.mem_map, mem_artifacts_of]
  rw [Dependencies.rename, hartifacts]
  rfl

end Dependencies

end Code

end Graphwright
