import Graphwright.Client.Basic
import Graphwright.Proofs.Outcome

/-!
# Schemas without texts for readers

A description is there to be read, and of a default value only that there is one counts. A schema
stripped of descriptions and of the texts of default values is registered as the one it comes from,
step by step: with the same types, operations and warnings, or with the same error.
-/
namespace Graphwright

namespace Schema

/-- An input without its description. Its default, if it has one, has no text. -/
def Input.plain (i : Input) : Input :=
  { i with description := none, default := i.default.map fun _ => "" }

def Field.plain (f : Field) : Field :=
  { f with description := none, arguments := f.arguments.map (·.plain) }

def EnumValue.plain (v : EnumValue) : EnumValue := { v with description := none }

def Shape.plain : Shape → Shape
  | .scalar => .scalar
  | .enumeration values => .enumeration (values.map (·.plain))
  | .union members => .union members
  | .inputObject fields => .inputObject (fields.map (·.plain))
  | .object interfaces fields => .object interfaces (fields.map (·.plain))
  | .interface fields => .interface (fields.map (·.plain))

def Definition.plain (d : Definition) : Definition :=
  { d with description := none, shape := d.shape.plain }

/-- A document without descriptions and without the texts of default values. -/
def Document.plain (document : Document) : Document :=
  { document with definitions := document.definitions.map (·.plain) }

@[simp] theorem Input.name_plain (i : Input) : i.plain.name = i.name := rfl

@[simp] theorem Input.type_plain (i : Input) : i.plain.type = i.type := rfl

@[simp] theorem Field.name_plain (f : Field) : f.plain.name = f.name := rfl

@[simp] theorem Field.type_plain (f : Field) : f.plain.type = f.type := rfl

@[simp] theorem Field.arguments_plain (f : Field) :
    f.plain.arguments = f.arguments.map (·.plain) := rfl

@[simp] theorem Definition.name_plain (d : Definition) : d.plain.name = d.name := rfl

@[simp] theorem Definition.shape_plain (d : Definition) : d.plain.shape = d.shape.plain := rfl

@[simp] theorem Input.isOptional_plain (i : Input) : i.plain.isOptional = i.isOptional := by
  simp [Input.isOptional, Input.plain]

@[simp] theorem Shape.category_plain (shape : Shape) : shape.plain.category = shape.category := by
  cases shape <;> rfl

theorem Shape.plain_eq_scalar {shape : Shape} : shape.plain = .scalar ↔ shape = .scalar := by
  cases shape <;> simp [Shape.plain]

end Schema

open Schema (Definition Document Field Roots Shape)

/-! ## Contents of definitions -/

@[simp] theorem Registry.fieldsOf_plain (shape : Shape) :
    fieldsOf shape.plain = (fieldsOf shape).map (·.plain) := by
  cases shape <;> rfl

namespace Client

@[simp] theorem valuesOf_plain (shape : Shape) :
    valuesOf shape.plain = (valuesOf shape).map (·.plain) := by
  cases shape <;> rfl

@[simp] theorem inputsOf_plain (shape : Shape) :
    inputsOf shape.plain = (inputsOf shape).map (·.plain) := by
  cases shape <;> rfl

@[simp] theorem interfacesOf_plain (shape : Shape) :
    interfacesOf shape.plain = interfacesOf shape := by
  cases shape <;> rfl

end Client

/-! ## Registries -/

def RegisteredType.plain (t : RegisteredType) : RegisteredType :=
  { t with definition := t.definition.plain }

@[simp] theorem RegisteredType.name_plain (t : RegisteredType) : t.plain.name = t.name := rfl

@[simp] theorem RegisteredType.definition_plain (t : RegisteredType) :
    t.plain.definition = t.definition.plain := rfl

def Registry.plain (r : Registry) : Registry :=
  { r with
    types := r.types.map (·.plain)
    queries := r.queries.map (·.plain)
    mutations := r.mutations.map (·.plain)
    sound := by
      rw [List.map_map]
      exact r.sound }

def Registration.plain : Registration → Registration
  | .added registry => .added registry.plain
  | .ignored warning => .ignored warning
  | .refused failure => .refused failure

namespace Registry

def Draft.plain (draft : Draft) : Draft := { draft with registry := draft.registry.plain }

@[simp] theorem Draft.registry_plain (draft : Draft) :
    draft.plain.registry = draft.registry.plain := rfl

@[simp] theorem Draft.roots_plain (draft : Draft) : draft.plain.roots = draft.roots := rfl

variable (r : Registry)

@[simp] theorem home_plain : r.plain.home = r.home := rfl

@[simp] theorem names_plain : r.plain.names = r.names := rfl

@[simp] theorem position?_plain (name : String) : r.plain.position? name = r.position? name := rfl

theorem operations_plain (kind : OperationKind) :
    r.plain.operations kind = (r.operations kind).map (·.plain) := by
  cases kind <;> rfl

theorem operationNames_plain (kind : OperationKind) :
    (r.plain.operations kind).map (·.name) = (r.operations kind).map (·.name) := by
  rw [operations_plain, List.map_map]
  rfl

theorem insert_plain (t : RegisteredType) : (r.insert t).plain = r.plain.insert t.plain := by
  refine Registry.ext rfl ?_ ?_ rfl rfl
  · simp [insert, plain]
  · simp [insert, plain]

theorem register_plain (d : Definition) : r.plain.register d.plain = (r.register d).plain := by
  have hregister : r.plain.register d.plain =
      if (Primitive.ofName? d.name).isSome then
        if d.plain.shape = .scalar then .ignored (.builtinRedeclared d.name)
        else .refused (.duplicateDefinition d.name)
      else if d.name ∈ r.names then .refused (.duplicateDefinition d.name)
      else .added (r.insert ⟨d, r.home.typePath d.name, none⟩).plain := by
    rw [insert_plain]
    rfl
  rw [hregister]
  simp only [register, Definition.shape_plain, Shape.plain_eq_scalar]
  split
  · split <;> rfl
  · split <;> rfl

theorem addOperations_plain (kind : OperationKind) (fields : List Field) :
    addOperations kind r.plain (fields.map (·.plain)) =
      (addOperations kind r fields).map (·.plain) := by
  induction fields generalizing r with
  | nil => rfl
  | cons f fs ih =>
      simp only [List.map_cons, addOperations, operationNames_plain, Field.name_plain]
      split
      · rfl
      · cases kind with
        | query =>
            rw [← ih]
            simp [plain]
        | mutation =>
            rw [← ih]
            simp [plain]

theorem rootKind?_plain (roots : Roots) (d : Definition) :
    rootKind? roots d.plain = rootKind? roots d := by
  unfold rootKind? Definition.plain
  cases d.shape <;> rfl

theorem substituteAt_plain (position : Nat) (path : String) :
    r.plain.substituteAt position path = (r.substituteAt position path).plain := by
  refine Registry.ext rfl (List.ext_getElem? fun i => ?_) rfl rfl rfl
  simp only [substituteAt, plain, List.getElem?_modify, List.getElem?_map, Option.map_eq_map,
    Option.map_map]
  refine congrArg (Option.map · r.types[i]?) (funext fun t => ?_)
  dsimp only [Function.comp_apply]
  split <;> rfl

/-! ## Registering a document -/

theorem Draft.add_plain (roots : Roots) (draft : Draft) (d : Definition) :
    draft.plain.add roots d.plain = (draft.add roots d).map (·.plain) := by
  simp only [add, rootKind?_plain, Definition.name_plain, Definition.shape_plain, registry_plain,
    roots_plain, names_plain, fieldsOf_plain, addOperations_plain, register_plain]
  split
  · rfl
  · cases rootKind? roots d with
    | some kind =>
        dsimp only
        cases addOperations kind draft.registry (fieldsOf d.shape) <;> rfl
    | none =>
        dsimp only
        cases draft.registry.register d <;> rfl

theorem Draft.substitute_plain (draft : Draft) (entry : String × String) :
    draft.plain.substitute entry = (draft.substitute entry).map (·.plain) := by
  simp only [substitute, registry_plain, position?_plain, substituteAt_plain]
  split
  · rfl
  · cases draft.registry.position? entry.1 <;> rfl

/-- A document stripped of its texts has the registry of the document stripped of its texts, or the
same error. -/
theorem build_plain (document : Document) (home : Namespace) (substitutions : Substitutions) :
    build document.plain home substitutions =
      (build document home substitutions).map fun built => (built.1.plain, built.2) := by
  have hadd := Outcome.foldlM_map (Draft.add_plain document.roots) document.definitions
    ⟨empty home, [], []⟩
  have hsubstitute := Outcome.foldlM_map (k := id) Draft.substitute_plain substitutions
  simp only [List.map_id] at hsubstitute
  change ((document.definitions.map (·.plain)).foldlM (Draft.add document.roots)
    (Draft.plain ⟨empty home, [], []⟩) >>= _) = _
  rw [hadd, Outcome.bind_map, build, Outcome.map_bind]
  refine Outcome.bind_congr fun draft _ => ?_
  rw [hsubstitute, Outcome.bind_map, Outcome.map_bind]
  exact Outcome.bind_congr fun draft _ => rfl

end Registry

end Graphwright
