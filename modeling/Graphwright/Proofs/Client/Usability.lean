import Graphwright.Proofs.Client.InputPositions
import Graphwright.Proofs.Client.Lookup

/-!
# References that cannot be used

No value has the type of a name that is not registered, of a union, or of an interface without a
hand-written item. Nothing looks through a registry for references to such names; each is met when
some item is put together. Main statement: no client is generated where a field, an operation, an
input field or an argument that can be passed refers to one. The arguments in the fields of an
interface are never looked at, unless a hand-written item replaces the interface.
-/
namespace Graphwright

open Schema (Field Shape TypeRef)

namespace Client

/-! ## References that are looked at -/

/-- No values have the type of that name: it is neither built in nor registered, or it is a union,
or an interface that no hand-written item replaces. -/
def IsUnusable (r : Registry) (name : String) : Prop :=
  Primitive.ofName? name = none ∧
    ∀ t ∈ r.find? name, t.category = .union ∨ t.category = .interface ∧ t.isSubstituted = false

instance (r : Registry) (name : String) : Decidable (IsUnusable r name) :=
  inferInstanceAs (Decidable (_ ∧ _))

/-- The types of fields, of the output objects, interfaces and input objects that get an item and of
those whose fields are selected, of operations, and of the arguments that can be passed to them. -/
def references (r : Registry) : List TypeRef :=
  (selectable r ++ primary r .interface).flatMap
      (fun t => (Registry.fieldsOf t.definition.shape).map (·.type))
    ++ (operations r).map (·.2.type) ++ (inputPositions r).map (·.type)

section

variable {r : Registry}

/-- A reference that resolves to a concrete type is no unusable one. -/
theorem not_isUnusable {type : TypeRef} {context : String} {resolved : ResolvedType}
    (h : resolveConcrete r type context = .ok resolved) : ¬ IsUnusable r type.baseName := by
  rintro ⟨hbuiltin, hunusable⟩
  obtain ⟨hresolve, hbase⟩ := resolveConcrete_ok.mp h
  have htarget := Registry.resolve_base hresolve
  cases hb : resolved.base with
  | builtin p =>
      rw [hb] at htarget
      cases hbuiltin.symm.trans (Registry.target?_eq_builtin htarget)
  | registered name category path =>
      rw [hb] at htarget hbase
      obtain ⟨rfl, _⟩ := Registry.target?_eq_registered htarget
      obtain ⟨t, hfind, _, _, hunion, hinterface⟩ := hbase
      rcases hunusable t hfind with hc | ⟨hc, hs⟩
      · exact hunion hc
      · cases hs.symm.trans (hinterface hc)

/-- A client is generated only if all of these references resolve. -/
theorem references_resolved {ms : List Code.Model} (h : models r = .ok ms) :
    ∀ type ∈ references r, ∃ context resolved, resolveConcrete r type context = .ok resolved := by
  refine List.forall_mem_append.mpr ⟨List.forall_mem_append.mpr ⟨?_, ?_⟩, ?_⟩
  · refine List.forall_mem_flatMap.mpr (List.forall_mem_append.mpr
      ⟨fun t ht => List.forall_mem_map.mpr fun f hf => ?_, fun t ht => List.forall_mem_map.mpr ?_⟩)
    · obtain ⟨m, _, hemit⟩ := exists_item h .selectionBuilder ht
      obtain ⟨members, hmembers, _⟩ := selectionBuilder_members hemit
      obtain ⟨member, _, context, resolved, _, hres, _⟩ :=
        Outcome.mem_of_forall₂' hmembers.for_fields f hf
      exact ⟨context, resolved, hres⟩
    · obtain ⟨m, _, hemit⟩ := exists_item h .interface ht
      obtain ⟨found, hfound, _⟩ := interface_accessors hemit
      intro f hf
      obtain ⟨_, _, context, resolved, hres, _⟩ := Outcome.mem_of_forall₂' (accessors_ok hfound).1 f hf
      exact ⟨context, resolved, hres⟩
  · obtain ⟨item, _, hemit⟩ := exists_service h
    obtain ⟨members, hmembers, _⟩ := service_members hemit
    refine List.forall_mem_map.mpr fun o ho => ?_
    obtain ⟨member, _, hmember⟩ := Outcome.mem_of_forall₂ hmembers.for_operations o ho
    obtain ⟨context, resolved, _, _, hres, _⟩ := operationMember_ok hmember
    exact ⟨context, resolved, hres⟩
  · refine List.forall_mem_map.mpr fun i hi => ?_
    obtain ⟨m, _, method, _, hconverts⟩ := exists_converts h i hi
    exact hconverts.exists_resolved

theorem exists_error_of_isUnusable {type : TypeRef} (htype : type ∈ references r)
    (h : IsUnusable r type.baseName) : ∃ failure, models r = .error failure := by
  cases hmodels : models r with
  | error failure => exact ⟨failure, rfl⟩
  | ok ms =>
      obtain ⟨context, resolved, hres⟩ := references_resolved hmodels type htype
      exact absurd h (not_isUnusable hres)

end

end Client

/-! ## Arguments in the fields of interfaces -/

def Schema.Field.bare (f : Field) : Field := { f with arguments := [] }

/-- An interface without the arguments of its fields. -/
def Schema.Shape.bare : Shape → Shape
  | .interface fields => .interface (fields.map (·.bare))
  | shape => shape

/-- A type without the arguments in its fields if it is an interface that gets an item. -/
def RegisteredType.bare (t : RegisteredType) : RegisteredType :=
  if t.isSubstituted then t
  else { t with definition := { t.definition with shape := t.definition.shape.bare } }

namespace RegisteredType

variable (t : RegisteredType)

@[simp] theorem name_bare : t.bare.name = t.name := by
  unfold bare
  split <;> rfl

@[simp] theorem category_bare : t.bare.category = t.category := by
  unfold bare
  split
  · rfl
  · unfold category Schema.Definition.category
    cases t.definition.shape <;> rfl

@[simp] theorem isSubstituted_bare : t.bare.isSubstituted = t.isSubstituted := by
  unfold bare
  split <;> rfl

@[simp] theorem artifactPath_bare : t.bare.artifactPath = t.artifactPath := by
  unfold bare
  split <;> rfl

/-- Arguments are left out, or nothing is. -/
theorem shape_bare : t.bare.definition.shape = t.definition.shape ∨ ∃ fields,
    t.definition.shape = .interface fields ∧
      t.bare.definition.shape = .interface (fields.map (·.bare)) := by
  unfold bare
  split
  · exact .inl rfl
  · cases h : t.definition.shape with
    | interface fields => exact .inr ⟨fields, rfl, rfl⟩
    | _ => exact .inl rfl

/-- No generator asks a type that it looks up for the arguments of its fields. -/
theorem resembles_bare : t.Resembles t.bare where
  name := t.name_bare
  category := t.category_bare
  isSubstituted := t.isSubstituted_bare
  artifactPath := t.artifactPath_bare
  fields _ := by
    rcases t.shape_bare with hshape | ⟨fields, hfields, hshape⟩
    · rw [hshape]
    · rw [hshape, hfields, Registry.fieldsOf, List.map_map]
      rfl

variable {t}

theorem bare_eq (h : t.category = .interface → t.isSubstituted = true) : t.bare = t := by
  unfold bare
  split
  · rfl
  · rename_i hs
    obtain ⟨⟨name, description, shape⟩, path, substitution⟩ := t
    cases shape with
    | interface fields => exact absurd (h rfl) hs
    | _ => rfl

end RegisteredType

def Registry.bare (r : Registry) : Registry :=
  { r with
    types := r.types.map (·.bare)
    sound := by
      rw [List.map_map, Function.comp_def]
      simp only [RegisteredType.name_bare]
      exact r.sound }

theorem Registry.mirrors_bare (r : Registry) : r.Mirrors (·.bare) r.bare where
  index := rfl
  types := rfl
  resembles t := t.resembles_bare

namespace Client

open Code

section

variable (r : Registry)

/-! ## Members -/

theorem planArguments_bare (owner : String) (arguments : List Schema.Input) (reserved : List String)
    (scope : Members) : planArguments r.bare owner arguments reserved scope =
      planArguments r owner arguments reserved scope := by
  rw [planArguments, planArguments, r.mirrors_bare.argumentParams_congr owner reserved scope rfl]

theorem accessors_bare (owner : String) (scope : Members) (fields : List Field) :
    accessors r.bare owner scope (fields.map (·.bare)) =
      accessors r owner scope fields := by
  induction fields generalizing scope with
  | nil => rfl
  | cons f fs ih =>
      simp only [List.map_cons, accessors, r.mirrors_bare.resolveConcrete_eq, ih]
      rfl

theorem outputMembers_bare (owner : String) (scope : Members) (fields : List Field) :
    outputMembers r.bare owner scope fields = outputMembers r owner scope fields := by
  induction fields generalizing scope with
  | nil => rfl
  | cons f fs ih =>
      simp only [outputMembers, r.mirrors_bare.resolveConcrete_eq, ih, outputMember,
        r.mirrors_bare.isBoxed_eq]

theorem conformingMethods_bare (object interface : String) (own required : List Field) :
    conformingMethods r.bare object interface own required =
      conformingMethods r object interface own required := by
  induction required with
  | nil => rfl
  | cons f fs ih => simp only [conformingMethods, r.mirrors_bare.resolveConcrete_eq, ih]

theorem conformingMethods_map_bare (object interface : String) (own required : List Field) :
    conformingMethods r object interface own (required.map (·.bare)) =
      conformingMethods r object interface own required := by
  induction required with
  | nil => rfl
  | cons f fs ih =>
      simp only [List.map_cons, conformingMethods, ih]
      rfl

theorem conformance_bare (object : String) (own : List Field) (interface : String) :
    conformance r.bare object own interface = conformance r object own interface := by
  unfold conformance
  rw [r.mirrors_bare.find?_eq]
  cases r.find? interface with
  | none => rfl
  | some t =>
      simp only [Option.map_some, RegisteredType.artifactPath_bare, conformingMethods_bare]
      rcases t.shape_bare with hshape | ⟨fields, hfields, hshape⟩
      · rw [hshape]
      · rw [hshape, hfields]
        simp only [conformingMethods_map_bare]

theorem inputMembers_bare (owner : String) (params members : Members) (fields : List Schema.Input) :
    inputMembers r.bare owner params members fields =
      inputMembers r owner params members fields := by
  induction fields generalizing params members with
  | nil => rfl
  | cons f fs ih => simp only [inputMembers, r.mirrors_bare.resolveConcrete_eq, ih]

theorem selectionMembers_bare (owner : String) (constants members : Members)
    (fields : List Field) : selectionMembers r.bare owner constants members fields =
      selectionMembers r owner constants members fields := by
  induction fields generalizing constants members with
  | nil => rfl
  | cons f fs ih =>
      simp only [selectionMembers, planArguments_bare, r.mirrors_bare.resolveConcrete_eq, ih]
      rfl

theorem serviceMembers_bare (service : String) (scope : Members)
    (operations : List (OperationKind × Field)) :
    serviceMembers r.bare service scope operations = serviceMembers r service scope operations := by
  induction operations generalizing scope with
  | nil => rfl
  | cons operation rest ih =>
      obtain ⟨kind, f⟩ := operation
      simp only [serviceMembers, operationMember, planArguments_bare,
        r.mirrors_bare.resolveConcrete_eq, ih]
      rfl

/-! ## Items -/

theorem primaryModel_bare (t : RegisteredType) (dependencies : Dependencies) (artifact : Artifact) :
    primaryModel t.bare dependencies artifact = primaryModel t dependencies artifact := by
  unfold RegisteredType.bare
  split <;> rfl

theorem interface_bare {t : RegisteredType} (ht : t ∈ primary r .interface) :
    Client.interface r.bare t.bare (Registry.fieldsOf t.bare.definition.shape) =
      Client.interface r t (Registry.fieldsOf t.definition.shape) := by
  obtain ⟨_, hc, hs⟩ := mem_primary.mp ht
  have hfields : Registry.fieldsOf t.bare.definition.shape =
      (Registry.fieldsOf t.definition.shape).map (·.bare) := by
    rw [RegisteredType.bare, if_neg (by simp [hs])]
    unfold RegisteredType.category Schema.Definition.category at hc
    cases hshape : t.definition.shape with
    | interface fields => rfl
    | _ =>
        rw [hshape] at hc
        cases hc
  simp only [Client.interface, hfields, accessors_bare, primaryModel_bare, RegisteredType.name_bare]

theorem inputObject_bare (t : RegisteredType) (fields : List Schema.Input) :
    inputObject r.bare t fields = inputObject r t fields := by
  simp only [inputObject, inputMembers_bare]

theorem outputObject_bare (t : RegisteredType) (interfaces : List String) (fields : List Field) :
    outputObject r.bare t interfaces fields = outputObject r t interfaces fields := by
  have hconformance : conformance r.bare t.name fields = conformance r t.name fields :=
    funext fun interface => conformance_bare r t.name fields interface
  simp only [outputObject, outputMembers_bare, r.mirrors_bare.isSubstitutedInterface_eq,
    hconformance]

theorem selectionBuilder_bare (t : RegisteredType) :
    selectionBuilder r.bare t = selectionBuilder r t := by
  simp only [selectionBuilder, selectionMembers_bare]

theorem service_bare : service r.bare = service r := by
  simp only [service, serviceMembers_bare, operations]
  rfl

/-- Every item is put together without these arguments. -/
theorem Part.emit_bare {part : Part} {t : RegisteredType} (ht : t ∈ part.subjects r) :
    part.emit r.bare t.bare = part.emit r t := by
  have hbare : part ≠ .interface → t.bare = t := by
    refine fun hpart => RegisteredType.bare_eq fun hc => ?_
    cases part with
    | selectionBuilder => simpa [hc] using (mem_selectable.mp ht).2
    | interface => exact absurd rfl hpart
    | service => cases ht
    | _ => cases hc.symm.trans (mem_primary.mp ht).2.1
  cases part with
  | interface => exact interface_bare r ht
  | service => exact service_bare r
  | inputObject =>
      rw [hbare (by decide)]
      exact inputObject_bare r t _
  | outputObject =>
      rw [hbare (by decide)]
      exact outputObject_bare r t _ _
  | selectionBuilder =>
      rw [hbare (by decide)]
      exact selectionBuilder_bare r t
  | _ =>
      rw [hbare (by decide)]
      rfl

/-- A client does not depend on the arguments in the fields of interfaces that get an item. -/
theorem models_bare : models r.bare = models r := by
  have hitems : (emissions r.bare).mapM (fun e => e.1.emit r.bare e.2) =
      (emissions r).mapM fun e => e.1.emit r e.2 := by
    rw [r.mirrors_bare.emissions_eq, List.mapM_map]
    refine Outcome.mapM_congr fun e he => ?_
    obtain ⟨part, _, he⟩ := List.mem_flatMap.mp he
    obtain ⟨t, ht, rfl⟩ := List.mem_map.mp he
    exact Part.emit_bare r ht
  rw [models_eq, models_eq, hitems, service_bare]

/-- No client is generated for a registry in which one of these references is unusable, and the
arguments in the fields of interfaces that get an item have no bearing on what is generated. -/
theorem models_usable :
    ((∃ type ∈ references r, IsUnusable r type.baseName) → ∃ failure, models r = .error failure) ∧
      models r.bare = models r :=
  ⟨fun ⟨_, htype, h⟩ => exists_error_of_isUnusable htype h, models_bare r⟩

end

/-- Fields, operations and arguments that all refer to the union. -/
def unionReferences (arguments : List Schema.Input) : Schema.Document where
  definitions := [⟨"U", none, .union ["A"]⟩,
    ⟨"A", none, .object [] [⟨"b", none, [], .named "Int"⟩]⟩,
    ⟨"I", none, .interface [⟨"f", none, [⟨"x", none, .named "U", none⟩], .named "Int"⟩]⟩,
    ⟨"Query", none, .object [] [⟨"a", none, arguments, .named "Int"⟩]⟩]
  roots := {}

theorem models_usable_unionReferences : ∃ r warnings failure,
    Registry.build (unionReferences [⟨"y", none, .list (.named "U"), none⟩]) .default [] =
      .ok (r, warnings) ∧
    (∃ type ∈ references r, IsUnusable r type.baseName) ∧ models r = .error failure := by
  obtain ⟨⟨r, warnings⟩, hr, htest⟩ : ∃ out,
      Registry.build (unionReferences [⟨"y", none, .list (.named "U"), none⟩]) .default [] =
        .ok out ∧ decide (∃ type ∈ references out.1, IsUnusable out.1 type.baseName) = true :=
    Outcome.any_eq_true.mp (by decide +kernel)
  have hunusable : ∃ type ∈ references r, IsUnusable r type.baseName := of_decide_eq_true htest
  obtain ⟨failure, hfailure⟩ := (models_usable r).1 hunusable
  exact ⟨r, warnings, failure, hr, hunusable, hfailure⟩

/-- An argument in a field of an interface can refer to anything. -/
theorem exists_models_unusable : ∃ r warnings ms,
    Registry.build (unionReferences []) .default [] = .ok (r, warnings) ∧ models r = .ok ms ∧
    ∃ t ∈ primary r .interface, ∃ f ∈ Registry.fieldsOf t.definition.shape, ∃ i ∈ f.arguments,
      IsUnusable r i.type.baseName := by
  have hrun : Outcome.any (Registry.build (unionReferences []) .default []) (fun out =>
      Outcome.any (models out.1) fun _ =>
        ∃ t ∈ primary out.1 .interface, ∃ f ∈ Registry.fieldsOf t.definition.shape,
          ∃ i ∈ f.arguments, IsUnusable out.1 i.type.baseName) = true := by
    decide +kernel
  obtain ⟨⟨r, warnings⟩, hr, hrun⟩ := Outcome.any_eq_true.mp hrun
  obtain ⟨ms, hms, htest⟩ := Outcome.any_eq_true.mp hrun
  exact ⟨r, warnings, ms, hr, hms, of_decide_eq_true htest⟩

end Client

end Graphwright
