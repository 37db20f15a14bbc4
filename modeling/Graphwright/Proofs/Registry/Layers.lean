import Graphwright.Proofs.Registry.Resolution

/-!
# The layers of resolved references

A reference resolves to its layers with what its innermost name stands for. Only repeated non-null
layers are lost: two references resolve alike exactly if they have the same layers otherwise and
their names stand for the same.
-/
namespace Graphwright

namespace Schema

/-- What a type reference wraps around a type. -/
inductive Wrapper
  | list | nonNull
  deriving DecidableEq, Repr

namespace TypeRef

/-- The layers around the name, the outermost first. -/
def layers : TypeRef → List Wrapper
  | named _ => []
  | list element => .list :: element.layers
  | nonNull inner => .nonNull :: inner.layers

/-- The reference with one non-null layer in place of several that follow each other. -/
def collapse : TypeRef → TypeRef
  | named name => named name
  | list element => list element.collapse
  | nonNull (nonNull inner) => (nonNull inner).collapse
  | nonNull inner => nonNull inner.collapse

/-- The reference under its outermost non-null layers. -/
def underNonNull : TypeRef → TypeRef
  | nonNull inner => inner.underNonNull
  | type => type

theorem collapse_nonNull_nonNull (inner : TypeRef) :
    (nonNull (nonNull inner)).collapse = (nonNull inner).collapse := by
  rw [collapse]

example : (nonNull (nonNull (list (nonNull (named "ID"))))).collapse =
    nonNull (list (nonNull (named "ID"))) := rfl

end TypeRef

end Schema

open Schema (TypeRef Wrapper)

namespace ResolvedType

/-- The layers of the reference that a type was resolved from, each non-null one once. -/
def layers : ResolvedType → List Wrapper
  | named nullable _ => if nullable then [] else [.nonNull]
  | list nullable element => (if nullable then [] else [.nonNull]) ++ .list :: element.layers

/-- Nothing but its layers and its base is in a resolved type. -/
theorem eq_of_layers {u v : ResolvedType} (hlayers : u.layers = v.layers)
    (hbase : u.base = v.base) : u = v := by
  induction u generalizing v with
  | named nullable target =>
      cases v with
      | named nullable' target' =>
          cases hbase
          cases nullable <;> cases nullable' <;> simp_all [layers]
      | list nullable' element =>
          cases nullable <;> cases nullable' <;> simp [layers] at hlayers
  | list nullable element ih =>
      cases v with
      | named nullable' target =>
          cases nullable <;> cases nullable' <;> simp [layers] at hlayers
      | list nullable' element' =>
          have helement : element.layers = element'.layers → element = element' :=
            fun h => ih h hbase
          cases nullable <;> cases nullable' <;> simp_all [layers]

end ResolvedType

namespace Registry

section

variable {r : Registry} {context : String} {nullable : Bool} {type : TypeRef} {u : ResolvedType}

/-- A flag for the outermost layer counts as a non-null layer around the reference. -/
theorem layers_of_resolveLayer (h : r.resolveLayer context nullable type = .ok u) :
    u.layers = (if nullable then type else .nonNull type).collapse.layers := by
  induction type generalizing nullable u with
  | named name =>
      simp only [resolveLayer] at h
      split at h
      · cases h
        cases nullable <;> rfl
      · cases h
  | list element ih =>
      obtain ⟨e, he, rfl⟩ := Outcome.map_ok.mp h
      have helement := ih he
      cases nullable <;> simp_all [ResolvedType.layers, TypeRef.collapse, TypeRef.layers]
  | nonNull inner ih =>
      have hinner := ih h
      cases nullable
      · simpa [TypeRef.collapse_nonNull_nonNull] using hinner
      · simpa using hinner

theorem layers_of_resolve (h : r.resolve type context = .ok u) :
    u.layers = type.collapse.layers :=
  layers_of_resolveLayer h

theorem nullable_of_resolveLayer (h : r.resolveLayer context nullable type = .ok u) :
    u.nullable = (nullable && allowsNull type) := by
  induction type generalizing nullable u with
  | named name =>
      simp only [resolveLayer] at h
      split at h
      · cases h
        simp [ResolvedType.nullable, allowsNull, TypeRef.isNonNull]
      · cases h
  | list element =>
      obtain ⟨e, _, rfl⟩ := Outcome.map_ok.mp h
      simp [ResolvedType.nullable, allowsNull, TypeRef.isNonNull]
  | nonNull inner ih =>
      rw [ih h]
      simp [allowsNull, TypeRef.isNonNull]

theorem isList_of_resolveLayer (h : r.resolveLayer context nullable type = .ok u) :
    u.isList = true ↔ ∃ element, type.underNonNull = .list element := by
  induction type generalizing nullable u with
  | named name =>
      simp only [resolveLayer] at h
      split at h
      · cases h
        simp [ResolvedType.isList, TypeRef.underNonNull]
      · cases h
  | list element =>
      obtain ⟨e, _, rfl⟩ := Outcome.map_ok.mp h
      simp [ResolvedType.isList, TypeRef.underNonNull]
  | nonNull inner ih => exact ih h

/-- A reference fails only for its innermost name. -/
theorem resolveLayer_eq_error (h : r.target? type.baseName = none) :
    r.resolveLayer context nullable type = .error (.unknownType type.baseName context) := by
  induction type generalizing nullable with
  | named name =>
      rw [TypeRef.baseName] at h ⊢
      rw [resolveLayer, h]
  | list element ih =>
      rw [resolveLayer, ih h]
      rfl
  | nonNull inner ih => exact ih h

/-- A name is built in or registered. -/
def IsKnown (r : Registry) (name : String) : Prop :=
  (Primitive.ofName? name).isSome = true ∨ name ∈ r.names

theorem isSome_target?_iff {name : String} : (r.target? name).isSome = true ↔ r.IsKnown name := by
  rw [IsKnown]
  unfold target?
  split
  · rename_i primitive h
    simp [h]
  · rename_i h
    rw [h, Option.isSome_map, Option.isSome_iff_ne_none, ne_eq, find?_eq_none_iff, not_not]
    simp

theorem ofName?_of_target? {name n p : String} {c : Schema.Category}
    (h : r.target? name = some (.registered n c p)) : Primitive.ofName? name = none := by
  unfold target? at h
  split at h
  · cases h
  · assumption

theorem isNonScalar_of_resolveLayer (h : r.resolveLayer context nullable type = .ok u) :
    isNonScalar type = true ↔ u.isList = true ∨ u.baseCategory?.isSome = true := by
  induction type generalizing nullable u with
  | named name =>
      simp only [resolveLayer] at h
      split at h
      · rename_i target htarget
        cases h
        cases target with
        | builtin primitive =>
            simp [isNonScalar, target?_eq_builtin htarget, ResolvedType.isList,
              ResolvedType.baseCategory?, ResolvedType.base]
        | registered n c p =>
            simp [isNonScalar, ofName?_of_target? htarget, ResolvedType.baseCategory?,
              ResolvedType.base]
      · cases h
  | list element =>
      obtain ⟨e, _, rfl⟩ := Outcome.map_ok.mp h
      simp [isNonScalar, ResolvedType.isList]
  | nonNull inner ih => exact ih h

/-- What a resolved type has from the reference that it was resolved from. -/
structure Reads (r : Registry) (type : TypeRef) (u : ResolvedType) : Prop where
  /-- Only the outermost layer says whether there may be no value. -/
  nullable : u.nullable = allowsNull type
  isList : u.isList = true ↔ ∃ element, type.underNonNull = .list element
  builtin : ∀ primitive, Primitive.ofName? type.baseName = some primitive →
    u.base = .builtin primitive ∧ u.baseCategory? = none
  registered : Primitive.ofName? type.baseName = none → ∃ t, r.find? type.baseName = some t ∧
    u.base = .registered type.baseName t.category t.artifactPath ∧
      u.baseCategory? = some t.category
  isNonScalar : isNonScalar type = true ↔ u.isList = true ∨ u.baseCategory?.isSome = true

theorem reads_of_resolve (h : r.resolve type context = .ok u) : Reads r type u where
  nullable := by rw [nullable_of_resolveLayer h, Bool.true_and]
  isList := isList_of_resolveLayer h
  builtin primitive hprimitive := by
    have hbase := resolve_base h
    simp only [target?, hprimitive, Option.some.injEq] at hbase
    simp [ResolvedType.baseCategory?, ← hbase]
  registered hnone := by
    have hbase := resolve_base h
    simp only [target?, hnone] at hbase
    obtain ⟨t, ht, hbase⟩ := Option.map_eq_some_iff.mp hbase
    rw [(mem_of_find? ht).2] at hbase
    exact ⟨t, ht, hbase.symm, by simp [ResolvedType.baseCategory?, ← hbase]⟩
  isNonScalar := isNonScalar_of_resolveLayer h

end

/-- A reference resolves exactly if its innermost name is known, and it keeps all its layers but
repeated non-null ones: two references resolve alike exactly if they have the same layers otherwise
and their names stand for the same. -/
theorem resolve_layers (r : Registry) (s t : TypeRef) (context context' : String) :
    ((∃ u, r.resolve s context = .ok u) ↔ r.IsKnown s.baseName) ∧
      (¬ r.IsKnown s.baseName →
        r.resolve s context = .error (.unknownType s.baseName context)) ∧
      (∀ u v, r.resolve s context = .ok u → r.resolve t context' = .ok v →
        (u = v ↔ s.collapse.layers = t.collapse.layers ∧
          r.target? s.baseName = r.target? t.baseName)) ∧
      ∀ u, r.resolve s context = .ok u → Reads r s u := by
  refine ⟨?_, fun hunknown => ?_, fun u v hu hv => ?_, fun u hu => reads_of_resolve hu⟩
  · exact (resolveLayer_isOk r context true s).trans isSome_target?_iff
  · rw [← isSome_target?_iff, Option.not_isSome_iff_eq_none] at hunknown
    exact resolveLayer_eq_error hunknown
  · rw [resolve_base hu, resolve_base hv, ← layers_of_resolve hu, ← layers_of_resolve hv]
    constructor
    · rintro rfl
      exact ⟨rfl, rfl⟩
    · rintro ⟨hlayers, hbase⟩
      exact ResolvedType.eq_of_layers hlayers (Option.some.inj hbase)

end Registry

end Graphwright
