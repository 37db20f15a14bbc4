import Graphwright.Proofs.Client.Lookup
import Graphwright.Proofs.Files.Order
import Graphwright.Proofs.Registry.Plain

/-!
# Descriptions end up in comments, default values nowhere

Generators copy descriptions into the comments of the items and members that they generate, and of
a default value they ask whether there is one. So for a schema stripped of the texts of both, each
generator gives the items that it gives for the schema itself, up to their comments, or the same
error. Two schemas that differ in nothing but such texts have clients that differ in nothing but
comments.
-/
namespace Graphwright

open Schema (Document Field Input Shape)

/-! ## Items without comments -/

namespace Code

def Method.undocumented (m : Method) : Method := { m with docs := none }

def EnumValue.undocumented (v : EnumValue) : EnumValue := { v with docs := none }

def Property.undocumented (p : Property) : Property := { p with docs := none }

def Class.undocumented (cls : Class) : Class :=
  { cls with methods := cls.methods.map (·.undocumented) }

def Conformance.undocumented (c : Conformance) : Conformance :=
  { c with methods := c.methods.map (·.undocumented) }

def Artifact.undocumented : Artifact → Artifact
  | .customScalar => .customScalar
  | .enumeration values => .enumeration (values.map (·.undocumented))
  | .inputObject cls => .inputObject cls.undocumented
  | .outputObject properties methods conformances =>
    .outputObject (properties.map (·.undocumented)) (methods.map (·.undocumented))
      (conformances.map (·.undocumented))
  | .interface accessors => .interface (accessors.map (·.undocumented))
  | .fieldSelection cls => .fieldSelection cls.undocumented
  | .service cls => .service cls.undocumented

/-- An item without its comment and without those of its members. -/
def Model.undocumented (m : Model) : Model :=
  { m with docs := none, artifact := m.artifact.undocumented }

@[simp] theorem Method.undocumented_undocumented (m : Method) :
    m.undocumented.undocumented = m.undocumented := rfl

@[simp] theorem EnumValue.undocumented_undocumented (v : EnumValue) :
    v.undocumented.undocumented = v.undocumented := rfl

@[simp] theorem Property.undocumented_undocumented (p : Property) :
    p.undocumented.undocumented = p.undocumented := rfl

@[simp] theorem Conformance.undocumented_undocumented (c : Conformance) :
    c.undocumented.undocumented = c.undocumented := by
  simp [Conformance.undocumented]

end Code

/-! ## The registry -/

theorem RegisteredType.resembles_plain (t : RegisteredType) : t.Resembles t.plain where
  name := rfl
  category := Shape.category_plain t.definition.shape
  isSubstituted := rfl
  artifactPath := rfl
  fields _ := by simp [plain, Schema.Definition.plain, Field.plain, Function.comp_def]

theorem Registry.mirrors_plain (r : Registry) : r.Mirrors (·.plain) r.plain where
  index := rfl
  types := rfl
  resembles t := t.resembles_plain

namespace Client

open Code

theorem undocumented_primaryModel_plain {t : RegisteredType} {dependencies : Dependencies}
    {artifact artifact' : Artifact} (h : artifact'.undocumented = artifact.undocumented) :
    (primaryModel t.plain dependencies artifact').undocumented =
      (primaryModel t dependencies artifact).undocumented := by
  rw [Model.undocumented, Model.undocumented, primaryModel, primaryModel, h]
  rfl

/-! ## Enums -/

theorem enumValue_plain (v : Schema.EnumValue) :
    enumValue v.plain = (enumValue v).undocumented := by
  have hname : v.plain.name = v.name := rfl
  have hdescription : v.plain.description = none := rfl
  -- `rfl` would evaluate the comparison of the spellings.
  rw [enumValue, enumValue, EnumValue.undocumented, hname, hdescription]

theorem EnumScopes.claim_undocumented (scopes : EnumScopes) (v : EnumValue) :
    scopes.claim v.undocumented = scopes.claim v := rfl

theorem enumValues_plain (scopes : EnumScopes) (values : List Schema.EnumValue) :
    enumValues scopes (values.map (·.plain)) =
      (enumValues scopes values).map (List.map (·.undocumented)) := by
  induction values generalizing scopes with
  | nil => rfl
  | cons v vs ih =>
      simp only [List.map_cons, enumValues, enumValue_plain, EnumScopes.claim_undocumented, ih,
        Outcome.bind_map, Outcome.map_bind]
      exact Outcome.bind_congr fun scopes _ => Outcome.bind_congr fun rest _ => rfl

theorem enumeration_plain (t : RegisteredType) (values : List Schema.EnumValue) :
    (enumeration t.plain (values.map (·.plain))).map (·.undocumented) =
      (enumeration t values).map (·.undocumented) := by
  simp only [enumeration, RegisteredType.name_plain, enumValues_plain, Outcome.bind_map,
    Outcome.map_bind]
  refine Outcome.bind_congr fun values _ => congrArg Except.ok (undocumented_primaryModel_plain ?_)
  simp [Artifact.undocumented, Function.comp_def]

/-! ## Input objects -/

def InputMember.plain (m : InputMember) : InputMember := { m with field := m.field.plain }

@[simp] theorem InputMember.isOptional_plain (m : InputMember) :
    m.plain.isOptional = m.isOptional := Input.isOptional_plain m.field

theorem filter_plain (p : InputMember → Bool) (hp : ∀ m, p m.plain = p m)
    (members : List InputMember) :
    (members.map (·.plain)).filter p = (members.filter p).map (·.plain) := by
  simp [List.filter_map, Function.comp_def, hp]

theorem inputConstants_plain (scope : Members) (fields : List Input) :
    inputConstants scope (fields.map (·.plain)) = inputConstants scope fields := by
  induction fields generalizing scope with
  | nil => rfl
  | cons f fs ih =>
      simp only [List.map_cons, inputConstants, ih]
      rfl

theorem constructorOrder_plain (fields : List Input) :
    constructorOrder (fields.map (·.plain)) = (constructorOrder fields).map (·.plain) := by
  simp [constructorOrder_eq, List.filter_map, Function.comp_def]

theorem constructed_plain (members : List InputMember) :
    constructed (members.map (·.plain)) = constructed members := by
  rw [constructed, constructed, filter_plain (·.isOptional) (by simp),
    filter_plain (!·.isOptional) (by simp), List.foldl_map, List.map_map]
  rfl

theorem inputConstructor_plain (members : List InputMember) :
    inputConstructor (members.map (·.plain)) = (inputConstructor members).undocumented := by
  have hparam : ∀ m : InputMember, m.plain.toParam = m.toParam := fun m => by
    rw [InputMember.toParam, m.isOptional_plain]
    rfl
  simp only [inputConstructor, Method.undocumented, constructed_plain, List.map_map,
    Function.comp_def, hparam]

section

variable (r : Registry)

theorem inputMembers_plain (owner : String) (params members : Members) (fields : List Input) :
    inputMembers r.plain owner params members (fields.map (·.plain)) =
      (inputMembers r owner params members fields).map (List.map (·.plain)) := by
  induction fields generalizing params members with
  | nil => rfl
  | cons f fs ih =>
      simp only [List.map_cons, inputMembers, Input.name_plain, Input.type_plain,
        Input.isOptional_plain, r.mirrors_plain.resolveConcrete_eq, ih, Outcome.bind_map,
        Outcome.map_bind]
      refine Outcome.bind_congr fun resolved _ => Outcome.bind_congr fun params _ => ?_
      split
      · simp only [Outcome.map_bind]
        rfl
      · simp only [Outcome.map_bind]
        rfl

theorem inputObject_plain (t : RegisteredType) (fields : List Input) :
    (inputObject r.plain t.plain (fields.map (·.plain))).map (·.undocumented) =
      (inputObject r t fields).map (·.undocumented) := by
  simp only [inputObject, RegisteredType.name_plain, inputConstants_plain, constructorOrder_plain,
    inputMembers_plain, Outcome.bind_map, Outcome.map_bind]
  refine Outcome.bind_congr fun constants _ => Outcome.bind_congr fun members _ => ?_
  have hsetter : ∀ m : InputMember, m.plain.setter = m.setter.undocumented := fun _ => rfl
  have hpath : ∀ m : InputMember, m.plain.path = m.path := fun _ => rfl
  simp only [filter_plain (·.isOptional) InputMember.isOptional_plain, inputConstructor_plain,
    List.map_map, List.filterMap_map, Function.comp_def, hsetter, hpath]
  refine congrArg Except.ok (undocumented_primaryModel_plain ?_)
  simp [Artifact.undocumented, Class.undocumented, Function.comp_def]

/-! ## Interfaces -/

theorem accessors_plain (owner : String) (scope : Members) (fields : List Field) :
    accessors r.plain owner scope (fields.map (·.plain)) =
      (accessors r owner scope fields).map (List.map fun a => (a.1.undocumented, a.2)) := by
  induction fields generalizing scope with
  | nil => rfl
  | cons f fs ih =>
      simp only [List.map_cons, accessors, Field.name_plain, Field.type_plain,
        r.mirrors_plain.resolveConcrete_eq, ih, Outcome.bind_map, Outcome.map_bind]
      rfl

theorem interface_plain (t : RegisteredType) (fields : List Field) :
    (Client.interface r.plain t.plain (fields.map (·.plain))).map (·.undocumented) =
      (Client.interface r t fields).map (·.undocumented) := by
  simp only [Client.interface, RegisteredType.name_plain, accessors_plain, Outcome.bind_map,
    Outcome.map_bind, List.filterMap_map, Function.comp_def]
  refine Outcome.bind_congr fun accessors _ => ?_
  refine congrArg Except.ok (undocumented_primaryModel_plain ?_)
  simp [Artifact.undocumented, Function.comp_def]

/-! ## Output objects -/

def OutputMember.plain (m : OutputMember) : OutputMember := { m with field := m.field.plain }

theorem outputMembers_plain (owner : String) (scope : Members) (fields : List Field) :
    outputMembers r.plain owner scope (fields.map (·.plain)) =
      (outputMembers r owner scope fields).map (List.map (·.plain)) := by
  induction fields generalizing scope with
  | nil => rfl
  | cons f fs ih =>
      simp only [List.map_cons, outputMembers, outputMember, Field.name_plain, Field.type_plain,
        r.mirrors_plain.resolveConcrete_eq, r.mirrors_plain.isBoxed_eq, ih, Outcome.bind_map,
        Outcome.map_bind]
      rfl

theorem initializer_plain (members : List OutputMember) :
    initializer (members.map (·.plain)) = (initializer members).undocumented := by
  simp only [initializer, Method.undocumented, List.map_map]
  rfl

theorem factory_plain (owner : String) (members : List OutputMember) :
    (factory owner (members.map (·.plain))).undocumented =
      (factory owner members).undocumented := by
  simp only [factory, Method.undocumented, List.map_map, ne_eq, List.map_eq_nil_iff]
  rfl

/-- The methods that make an object implement an interface have no comments of their own. -/
theorem conformingMethods_plain (object interface : String) (own required : List Field) :
    conformingMethods r.plain object interface (own.map (·.plain)) (required.map (·.plain)) =
      (conformingMethods r object interface own required).map (List.map (·.undocumented)) := by
  induction required with
  | nil => rfl
  | cons f fs ih =>
      have hfind : (own.map (·.plain)).find? (·.name = f.plain.name) =
          (own.find? (·.name = f.name)).map (·.plain) := List.find?_map
      rw [List.map_cons, conformingMethods, conformingMethods, hfind, ih]
      simp only [Field.name_plain, Field.type_plain, r.mirrors_plain.resolveConcrete_eq]
      cases own.find? (·.name = f.name) with
      | none => rfl
      | some field =>
          simp only [Option.map_some, Outcome.ok_bind, Field.name_plain, Field.type_plain,
            Outcome.bind_map, Outcome.map_bind]
          refine Outcome.bind_congr fun requiredType _ => Outcome.bind_congr fun ownType _ => ?_
          cases widening? ownType requiredType with
          | none => rfl
          | some widened =>
              simp only [Outcome.map_bind]
              rfl

theorem conformance_plain (object : String) (own : List Field) (interface : String) :
    conformance r.plain object (own.map (·.plain)) interface =
      (conformance r object own interface).map (·.undocumented) := by
  unfold conformance
  rw [r.mirrors_plain.find?_eq]
  cases r.find? interface with
  | none => rfl
  | some t =>
      dsimp only [Option.map_some]
      rw [RegisteredType.definition_plain, Schema.Definition.shape_plain]
      cases t.definition.shape with
      | interface fields =>
          simp only [Shape.plain, conformingMethods_plain, Outcome.bind_map, Outcome.map_bind]
          rfl
      | _ => rfl

theorem outputObject_plain (t : RegisteredType) (interfaces : List String) (fields : List Field) :
    (outputObject r.plain t.plain interfaces (fields.map (·.plain))).map (·.undocumented) =
      (outputObject r t interfaces fields).map (·.undocumented) := by
  have hconformance : conformance r.plain t.name (fields.map (·.plain)) =
      fun interface => (conformance r t.name fields interface).map (·.undocumented) :=
    funext fun interface => conformance_plain r t.name fields interface
  simp only [outputObject, RegisteredType.name_plain, outputMembers_plain, hconformance,
    r.mirrors_plain.isSubstitutedInterface_eq, Outcome.mapM_map, Outcome.bind_map, Outcome.map_bind]
  refine Outcome.bind_congr fun members _ => Outcome.bind_congr fun conformances _ => ?_
  have hpath : ∀ m : OutputMember, m.plain.path = m.path := fun _ => rfl
  have hinterface : ∀ c : Conformance, c.undocumented.interface = c.interface := fun _ => rfl
  have hproperty : ∀ m : OutputMember, m.plain.property = m.property.undocumented := fun _ => rfl
  have hgetter : ∀ m : OutputMember, m.plain.getter = m.getter.undocumented := fun _ => rfl
  simp only [List.filterMap_map, List.map_map, Function.comp_def, hpath, hinterface]
  refine congrArg Except.ok (undocumented_primaryModel_plain ?_)
  simp [Artifact.undocumented, initializer_plain, factory_plain, Function.comp_def, hproperty,
    hgetter]

/-! ## Selection builders and the service -/

def SelectionMember.undocumented (m : SelectionMember) : SelectionMember :=
  { m with method := m.method.undocumented }

theorem planArguments_plain (owner : String) (arguments : List Input) (reserved : List String)
    (scope : Members) : planArguments r.plain owner (arguments.map (·.plain)) reserved scope =
      planArguments r owner arguments reserved scope := by
  rw [planArguments, planArguments, r.mirrors_plain.argumentParams_congr]
  simp only [List.map_map, Function.comp_def, Input.isOptional_plain]
  rfl

theorem selectionMembers_plain (owner : String) (constants members : Members)
    (fields : List Field) :
    selectionMembers r.plain owner constants members (fields.map (·.plain)) =
      (selectionMembers r owner constants members fields).map (List.map (·.undocumented)) := by
  induction fields generalizing constants members with
  | nil => rfl
  | cons f fs ih =>
      simp only [List.map_cons, selectionMembers, Field.name_plain, Field.type_plain,
        Field.arguments_plain, Registry.home_plain, r.mirrors_plain.resolveConcrete_eq,
        planArguments_plain, ih, Outcome.bind_map, Outcome.map_bind]
      rfl

theorem selectionBuilder_plain (t : RegisteredType) :
    (selectionBuilder r.plain t.plain).map (·.undocumented) =
      (selectionBuilder r t).map (·.undocumented) := by
  simp only [selectionBuilder, RegisteredType.name_plain, RegisteredType.definition_plain,
    Schema.Definition.shape_plain, Registry.fieldsOf_plain, selectionMembers_plain,
    Outcome.bind_map, Outcome.map_bind]
  refine Outcome.bind_congr fun members _ => congrArg Except.ok ?_
  simp [Model.undocumented, Artifact.undocumented, Class.undocumented, SelectionMember.undocumented,
    List.flatMap_map, Function.comp_def]

def ServiceMember.undocumented (m : ServiceMember) : ServiceMember :=
  { m with method := m.method.undocumented }

theorem operationMember_plain (service : String) (kind : OperationKind) (f : Field) :
    operationMember r.plain service kind f.plain =
      (operationMember r service kind f).map (·.undocumented) := by
  simp only [operationMember, Field.name_plain, Field.type_plain, Field.arguments_plain,
    Registry.home_plain, r.mirrors_plain.resolveConcrete_eq, planArguments_plain,
    Outcome.map_bind]
  rfl

theorem serviceMembers_plain (service : String) (scope : Members)
    (operations : List (OperationKind × Field)) :
    serviceMembers r.plain service scope (operations.map fun o => (o.1, o.2.plain)) =
      (serviceMembers r service scope operations).map (List.map (·.undocumented)) := by
  induction operations generalizing scope with
  | nil => rfl
  | cons operation rest ih =>
      obtain ⟨kind, f⟩ := operation
      simp only [List.map_cons, serviceMembers, operationMember_plain, ih, Outcome.bind_map,
        Outcome.map_bind]
      rfl

theorem service_plain :
    (service r.plain).map (·.undocumented) = (service r).map (·.undocumented) := by
  have hoperations : operations r.plain = (operations r).map fun o => (o.1, o.2.plain) := by
    simp [operations, Registry.plain, Function.comp_def]
  simp only [service, hoperations, Registry.home_plain, serviceMembers_plain, Outcome.bind_map,
    Outcome.map_bind]
  refine Outcome.bind_congr fun members _ => congrArg Except.ok ?_
  simp [Model.undocumented, Artifact.undocumented, Class.undocumented, ServiceMember.undocumented,
    List.flatMap_map, Function.comp_def]

/-! ## Clients -/

theorem Part.emit_plain (part : Part) (t : RegisteredType) :
    (part.emit r.plain t.plain).map (·.undocumented) =
      (part.emit r t).map (·.undocumented) := by
  cases part with
  | customScalar => rfl
  | enumeration =>
      simp only [emit, RegisteredType.definition_plain, Schema.Definition.shape_plain,
        valuesOf_plain, enumeration_plain]
  | inputObject =>
      simp only [emit, RegisteredType.definition_plain, Schema.Definition.shape_plain,
        inputsOf_plain, inputObject_plain]
  | interface =>
      simp only [emit, RegisteredType.definition_plain, Schema.Definition.shape_plain,
        Registry.fieldsOf_plain, interface_plain]
  | outputObject =>
      simp only [emit, RegisteredType.definition_plain, Schema.Definition.shape_plain,
        interfacesOf_plain, Registry.fieldsOf_plain, outputObject_plain]
  | selectionBuilder => exact selectionBuilder_plain r t
  | service => exact service_plain r

/-- The client for a registry stripped of texts is the one for the registry itself, up to
comments. -/
theorem models_plain :
    (models r.plain).map (List.map (·.undocumented)) =
      (models r).map (List.map (·.undocumented)) := by
  have hmodels : ∀ r : Registry, (models r).map (List.map (·.undocumented)) = do
      let items ← (emissions r).mapM fun e : Part × RegisteredType =>
        (e.1.emit r e.2).map (·.undocumented)
      return items ++ [← (service r).map (·.undocumented)] := by
    intro r
    simp only [models_eq, Outcome.mapM_map, Outcome.bind_map, Outcome.map_bind]
    refine Outcome.bind_congr fun items _ => Outcome.bind_congr fun own _ => congrArg Except.ok ?_
    simp
  have hitems :
      (emissions r.plain).mapM (fun e : Part × RegisteredType =>
          (e.1.emit r.plain e.2).map (·.undocumented)) =
        (emissions r).mapM fun e : Part × RegisteredType =>
          (e.1.emit r e.2).map (·.undocumented) := by
    rw [r.mirrors_plain.emissions_eq, List.mapM_map]
    exact Outcome.mapM_congr fun e _ => Part.emit_plain r e.1 e.2
  rw [hmodels, hmodels, hitems, service_plain]

end

theorem map_undocumented_ofDocument (document : Document) (home : Namespace)
    (substitutions : Substitutions) :
    (ofDocument document home substitutions).map (fun c => c.2.map (·.undocumented)) =
      Registry.build document home substitutions >>= fun built =>
        (models built.1).map (List.map (·.undocumented)) := by
  simp only [ofDocument, Outcome.map_bind]
  refine Outcome.bind_congr fun built _ => ?_
  cases models built.1 <;> rfl

/-- Descriptions and the texts of default values have no bearing on the code: for two documents
that differ in nothing else, there is a client for the one exactly if there is one for the other,
with the same error otherwise, and the clients are the same up to comments. -/
theorem ofDocument_congr_plain {document document' : Document}
    (h : document.plain = document'.plain) (home : Namespace) (substitutions : Substitutions) :
    (ofDocument document home substitutions).map (fun c => c.2.map (·.undocumented)) =
      (ofDocument document' home substitutions).map fun c => c.2.map (·.undocumented) := by
  have hplain : ∀ d : Document,
      (ofDocument d.plain home substitutions).map (fun c => c.2.map (·.undocumented)) =
        (ofDocument d home substitutions).map fun c => c.2.map (·.undocumented) := by
    intro d
    rw [map_undocumented_ofDocument, map_undocumented_ofDocument, Registry.build_plain,
      Outcome.bind_map]
    exact Outcome.bind_congr fun built _ => models_plain built.1
  rw [← hplain document, h, hplain]

/-- An operation with an argument that has a default value. -/
def greeting (description : Option String) (default : String) : Document where
  definitions := [
    ⟨"Query", description, .object [] [⟨"greet", description,
      [⟨"name", description, .nonNull (.named "String"), some default⟩], .named "Mood"⟩]⟩,
    ⟨"Mood", description, .enumeration [⟨"GOOD", description⟩, ⟨"BAD", none⟩]⟩]
  roots := {}

theorem ofDocument_congr_plain_greeting :
    greeting none "you" ≠ greeting (some "Says hello.") "world" ∧
      (ofDocument (greeting none "you") .default []).isOk = true ∧
      (ofDocument (greeting none "you") .default []).map (fun c => c.2.map (·.undocumented)) =
        (ofDocument (greeting (some "Says hello.") "world") .default []).map
          fun c => c.2.map (·.undocumented) :=
  ⟨by decide, by decide +kernel, ofDocument_congr_plain rfl .default []⟩

end Client

end Graphwright
