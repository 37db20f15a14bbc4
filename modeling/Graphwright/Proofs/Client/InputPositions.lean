import Graphwright.Proofs.Client.References
import Graphwright.Proofs.Code.Names
import Graphwright.Proofs.Client.Members

/-!
# What is sent

A value is converted before it is sent, which takes a type whose values have a literal. Built-in
scalars have one, and so do the items for custom scalars, enums and input objects. Main statement:
whatever a method converts is a parameter for an argument or for a field of an input object, and
its type has the conversion exactly if it is not an output object, which nothing keeps out.
-/
namespace Graphwright

/-! ## Conversions -/

namespace Code

mutual
/-- The names of the values that an expression converts. -/
@[simp] def Expr.converted : Expr → List String
  | .toInput value => value.names
  | .field base _ => base.converted
  | .arguments entries => Expr.convertedInEntries entries
  | .methodCall receiver _ args => receiver.converted ++ Expr.convertedInList args
  | .associatedCall _ args => Expr.convertedInList args
  | .construct fields => Expr.convertedInFields fields
  | .request _ _ args _ => args.converted
  | .send sent => sent.converted
  | .attempt value => value.converted
  | .borrow value => value.converted
  | .decode source _ _ _ => source.converted
  | .success value => value.converted
  | .var _ => []
  | .self => []
  | .constant _ => []
  | .str _ => []
  | .unset => []
  | .readHydrated _ _ _ => []
  | .delegate _ _ => []

@[simp] def Expr.convertedInList : List Expr → List String
  | [] => []
  | e :: es => e.converted ++ Expr.convertedInList es

@[simp] def Expr.convertedInEntries : List (Expr × Expr) → List String
  | [] => []
  | (key, value) :: entries => key.converted ++ value.converted ++ Expr.convertedInEntries entries

@[simp] def Expr.convertedInFields : List (String × Expr) → List String
  | [] => []
  | (_, value) :: fields => value.converted ++ Expr.convertedInFields fields
end

@[simp] def Stmt.converted : Stmt → List String
  | bind _ _ value => value.converted
  | assign target value => target.converted ++ value.converted
  | insert map key value => map.converted ++ key.converted ++ value.converted
  | insertIfPresent map key param => map.converted ++ key.converted ++ [param]
  | returnSelfIfAbsent _ => []
  | select selection field arguments _ =>
    selection.converted ++ field.converted ++ arguments.converted
  | «return» value => value.converted

def Method.converted (m : Method) : List String := m.body.flatMap (·.converted)

def Artifact.methods : Artifact → List Method
  | customScalar => []
  | enumeration _ => []
  | inputObject cls => cls.methods
  | outputObject _ methods conformances => methods ++ conformances.flatMap (·.methods)
  | interface accessors => accessors
  | fieldSelection cls => cls.methods
  | service cls => cls.methods

/-- Values of the item have a literal. -/
def Artifact.isInput : Artifact → Bool
  | customScalar => true
  | enumeration _ => true
  | inputObject _ => true
  | _ => false

theorem Expr.mem_convertedInEntries {n : String} {entries : List (Expr × Expr)} :
    n ∈ convertedInEntries entries ↔ ∃ e ∈ entries, n ∈ e.1.converted ∨ n ∈ e.2.converted := by
  induction entries with
  | nil => simp
  | cons e entries ih =>
      rw [convertedInEntries, List.mem_append, List.mem_append, ih, List.exists_mem_cons_iff]

theorem Expr.mem_convertedInFields {n : String} {fields : List (String × Expr)} :
    n ∈ convertedInFields fields ↔ ∃ f ∈ fields, n ∈ f.2.converted := by
  induction fields with
  | nil => simp
  | cons f fields ih =>
      rw [convertedInFields, List.mem_append, ih, List.exists_mem_cons_iff]

end Code

/-- A declaration by which values of the item get a literal: the conversion is implemented, or the
item is another name for the type of raw scalars, which has it. -/
def Rust.Item.GivesLiteral (imports : Rust.Imports) (name : Rust.Ident) : Rust.Item → Prop
  | .implementation _ implemented type _ =>
    implemented = some (imports.runtimeType .toInputValue []) ∧ type = .named name
  | .typeAlias _ own type => own = name ∧ ∃ marker, type = imports.runtimeType .scalar [marker]
  | _ => False

/-- However the item is spelled, its values get a literal. -/
def Rust.GivesLiteral (item : Code.Model) : Prop :=
  ∀ (imports : Rust.Imports) (items : List Rust.Item), imports.declarations item = .ok items →
    ∃ name, Rust.Ident.escaped item.name = .ok name ∧ ∃ d ∈ items, d.GivesLiteral imports name

theorem Rust.givesLiteral_of_isInput {item : Code.Model} (hinput : item.artifact.isInput = true) :
    Rust.GivesLiteral item := by
  intro imports items h
  obtain ⟨name, hname, h⟩ := Outcome.bind_ok.mp h
  refine ⟨name, hname, ?_⟩
  cases hartifact : item.artifact with
  | customScalar =>
      rw [hartifact] at h
      obtain ⟨marker, _, h⟩ := Outcome.bind_ok.mp h
      cases h
      exact ⟨_, List.mem_cons_of_mem _ (List.mem_cons_of_mem _ List.mem_cons_self), rfl, _, rfl⟩
  | enumeration values =>
      rw [hartifact] at h
      obtain ⟨_, _, h⟩ := Outcome.bind_ok.mp h
      obtain ⟨_, _, h⟩ := Outcome.bind_ok.mp h
      obtain ⟨_, _, h⟩ := Outcome.bind_ok.mp h
      obtain ⟨_, _, h⟩ := Outcome.bind_ok.mp h
      cases h
      exact ⟨_, List.mem_cons_of_mem _ (List.mem_cons_of_mem _ (List.mem_cons_of_mem _
        List.mem_cons_self)), rfl, rfl⟩
  | inputObject cls =>
      rw [hartifact] at h
      obtain ⟨_, _, h⟩ := Outcome.bind_ok.mp h
      obtain ⟨_, _, h⟩ := Outcome.bind_ok.mp h
      cases h
      exact ⟨_, List.mem_cons_of_mem _ (List.mem_cons_of_mem _ List.mem_cons_self), rfl, rfl⟩
  | _ =>
      rw [hartifact] at hinput
      cases hinput

namespace Client

open Code

/-! ## Methods -/

/-- A plan converts the parameters that it is for, and nothing else. -/
theorem mem_converted_plan {n : String} {as : List ArgumentParam} :
    n ∈ (ArgumentPlan.ofParams as).setup.flatMap (·.converted)
        ++ (ArgumentPlan.ofParams as).map.converted ↔ ∃ a ∈ as, a.param = n := by
  -- required arguments stand in the literal, and the other ones are inserted behind it
  have hliteral : n ∈ (Expr.arguments ((as.filter (!·.isOptional)).map (·.entry))).converted ↔
      ∃ a ∈ as, a.isOptional = false ∧ a.param = n := by
    rw [Expr.converted, Expr.mem_convertedInEntries]
    simp [ArgumentParam.entry, Expr.names, and_assoc, @eq_comm _ n]
  have hinserted : n ∈ ((as.filter (·.isOptional)).map fun a =>
        Stmt.insertIfPresent (.var argumentsLocal) (.str a.argument) a.param).flatMap (·.converted) ↔
      ∃ a ∈ as, a.isOptional = true ∧ a.param = n := by
    rw [List.mem_flatMap]
    simp [and_assoc, @eq_comm _ n]
  have hall : (∃ a ∈ as, a.param = n) ↔ (∃ a ∈ as, a.isOptional = false ∧ a.param = n) ∨
      ∃ a ∈ as, a.isOptional = true ∧ a.param = n := by
    constructor
    · rintro ⟨a, ha, hn⟩
      cases ho : a.isOptional with
      | false => exact .inl ⟨a, ha, ho, hn⟩
      | true => exact .inr ⟨a, ha, ho, hn⟩
    · rintro (⟨a, ha, _, hn⟩ | ⟨a, ha, _, hn⟩) <;> exact ⟨a, ha, hn⟩
  rw [hall, ← hliteral, ← hinserted]
  simp only [ArgumentPlan.ofParams]
  split
  · rename_i hnone
    simp [hnone]
  · simp

/-- A constructor converts the parameters of the required fields; the other ones are handed to
setters. -/
theorem mem_converted_constructed {n : String} {ms : List InputMember} :
    n ∈ (constructed ms).converted ↔ ∃ m ∈ ms, m.isOptional = false ∧ m.param = n := by
  have hsetters : ∀ (optional : List InputMember) (object : Expr), (optional.foldl
      (fun object m => .methodCall object m.setterName [.var m.param]) object).converted =
        object.converted := by
    intro optional
    induction optional with
    | nil => exact fun _ => rfl
    | cons m optional ih =>
        intro object
        rw [List.foldl_cons, ih]
        simp
  rw [constructed, hsetters, Expr.converted, Expr.mem_convertedInFields]
  simp only [List.mem_singleton, exists_eq_left]
  rw [Expr.converted, Expr.mem_convertedInEntries]
  simp [InputMember.entry, Expr.names, and_assoc, @eq_comm _ n]

theorem converted_objectMethods (owner : String) (members : List OutputMember) :
    ∀ method ∈ objectMethods owner members, method.converted = [] := by
  have hinitializer : (initializer members).converted = [] := by
    refine List.eq_nil_iff_forall_not_mem.mpr fun n hn => ?_
    rw [Method.converted, initializer, List.flatMap_singleton, Stmt.converted, Expr.converted,
      Expr.mem_convertedInFields] at hn
    obtain ⟨f, hf, hn⟩ := hn
    obtain ⟨m, _, rfl⟩ := List.mem_map.mp hf
    cases hn
  have hfactory : (factory owner members).converted = [] := by
    refine List.flatMap_eq_nil_iff.mpr (List.forall_mem_append.mpr ⟨List.forall_mem_cons.mpr
      ⟨rfl, ?_⟩, List.forall_mem_singleton.mpr rfl⟩)
    exact List.forall_mem_map.mpr fun m _ => rfl
  refine List.forall_mem_append.mpr ⟨List.forall_mem_cons.mpr ⟨hinitializer, ?_⟩,
    List.forall_mem_singleton.mpr hfactory⟩
  exact List.forall_mem_map.mpr fun m _ => rfl

/-! ## Positions -/

/-- The arguments of operations and of all fields that can be selected, and the fields of the input
objects that get an item. -/
def inputPositions (r : Registry) : List Schema.Input :=
  (operations r).flatMap (·.2.arguments)
    ++ (selectable r).flatMap (fun t => (Registry.fieldsOf t.definition.shape).flatMap (·.arguments))
    ++ (primary r .inputObject).flatMap (inputsOf ·.definition.shape)

/-- The parameter takes the values of an argument or an input field: those of its type, or also
none if it may be left out. -/
def TakesValuesOf (r : Registry) (p : Param) (i : Schema.Input) : Prop :=
  ∃ context resolved, resolveConcrete r i.type context = .ok resolved ∧
    p.type = if i.isOptional then .nullable (TypeExpr.ofResolved resolved).nonNull
      else (TypeExpr.ofResolved resolved).nonNull

/-- A method converts what it is passed for an argument or an input field. -/
def Converts (r : Registry) (method : Method) (i : Schema.Input) : Prop :=
  ∃ p ∈ method.params, p.name ∈ method.converted ∧ TakesValuesOf r p i

/-- Whatever a method converts is passed for one of these arguments or input fields. -/
def ConvertsOnly (r : Registry) (inputs : List Schema.Input) (method : Method) : Prop :=
  ∀ n ∈ method.converted, ∃ p ∈ method.params, p.name = n ∧ ∃ i ∈ inputs, TakesValuesOf r p i

section

variable {r : Registry}

theorem ConvertsOnly.mono {inputs inputs' : List Schema.Input} {method : Method}
    (h : ConvertsOnly r inputs method) (hsub : inputs ⊆ inputs') : ConvertsOnly r inputs' method := by
  intro n hn
  obtain ⟨p, hp, hname, i, hi, htakes⟩ := h n hn
  exact ⟨p, hp, hname, i, hsub hi, htakes⟩

theorem convertsOnly_of_nil {inputs : List Schema.Input} {method : Method}
    (h : method.converted = []) : ConvertsOnly r inputs method := by
  rw [ConvertsOnly, h]
  exact List.forall_mem_nil _

theorem ArgumentParam.For.takesValuesOf {a : ArgumentParam} {i : Schema.Input} (h : a.For r i) :
    TakesValuesOf r a.toParam i := by
  obtain ⟨context, resolved, hres, htype⟩ := h.type
  exact ⟨context, resolved, hres, by rw [ArgumentParam.toParam, h.isOptional, htype]⟩

theorem InputMember.For.takesValuesOf {m : InputMember} {f : Schema.Input} (h : m.For r f) :
    TakesValuesOf r m.toParam f := by
  obtain ⟨context, resolved, hres, htype⟩ := h.type
  exact ⟨context, resolved, hres,
    by rw [InputMember.toParam, InputMember.isOptional, h.field, htype]⟩

theorem Converts.exists_resolved {method : Method} {i : Schema.Input} (h : Converts r method i) :
    ∃ context resolved, resolveConcrete r i.type context = .ok resolved := by
  obtain ⟨_, _, _, context, resolved, hres, _⟩ := h
  exact ⟨context, resolved, hres⟩

/-- A method that takes the parameters of a plan and converts what the plan does. -/
theorem converts_of_planned {reserved : List String} {inputs : List Schema.Input}
    {as : List ArgumentParam} (h : Planned r reserved inputs as) {method : Method}
    (hparams : ∀ a ∈ as, a.toParam ∈ method.params)
    (hbody : method.converted =
      (ArgumentPlan.ofParams as).setup.flatMap (·.converted)
        ++ (ArgumentPlan.ofParams as).map.converted) :
    ConvertsOnly r inputs method ∧ ∀ i ∈ inputs, Converts r method i := by
  constructor
  · intro n hn
    obtain ⟨a, ha, rfl⟩ := mem_converted_plan.mp (hbody ▸ hn)
    obtain ⟨i, hi, hfor⟩ := Outcome.mem_of_forall₂ h.for_inputs a ha
    exact ⟨a.toParam, hparams a ha, rfl, i, hi, hfor.takesValuesOf⟩
  · intro i hi
    obtain ⟨a, ha, hfor⟩ := Outcome.mem_of_forall₂' h.for_inputs i hi
    refine ⟨a.toParam, hparams a ha, ?_, hfor.takesValuesOf⟩
    rw [hbody]
    exact mem_converted_plan.mpr ⟨a, ha, rfl⟩

theorem operationMember_converts {service : String} {kind : OperationKind} {f : Schema.Field}
    {member : ServiceMember} (h : operationMember r service kind f = .ok member) :
    ConvertsOnly r f.arguments member.method ∧ ∀ i ∈ f.arguments, Converts r member.method i := by
  obtain ⟨_, resolved, d, as, _, _, hplanned, rfl⟩ := operationMember_ok h
  refine converts_of_planned hplanned
    (fun a ha => List.mem_append_right _ (List.mem_map_of_mem ha)) ?_
  simp [Method.converted, serviceMember]

theorem SelectionMember.For.converts {own : String} {member : SelectionMember} {f : Schema.Field}
    (h : member.For r own f) :
    ConvertsOnly r f.arguments member.method ∧ ∀ i ∈ f.arguments, Converts r member.method i := by
  obtain ⟨_, resolved, as, _, hplanned, rfl⟩ := h
  refine converts_of_planned hplanned
    (fun a ha => List.mem_append_right _ (List.mem_map_of_mem ha)) ?_
  simp [Method.converted, selectionMember]

theorem converted_setter (m : InputMember) : m.setter.converted = [m.param] := by
  simp [Method.converted, InputMember.setter, Expr.names]

theorem params_setter {m : InputMember} (h : m.isOptional = true) :
    m.setter.params = [m.toParam] := by
  rw [InputMember.setter, InputMember.toParam, if_pos h]

theorem mem_converted_inputConstructor {n : String} {ms : List InputMember} :
    n ∈ (inputConstructor ms).converted ↔ ∃ m ∈ ms, m.isOptional = false ∧ m.param = n := by
  rw [Method.converted, inputConstructor, List.flatMap_singleton, Stmt.converted,
    mem_converted_constructed]

/-- The constructor converts the required fields, and each setter its own. -/
theorem inputClass_converts {fields : List Schema.Input} {ms : List InputMember}
    (h : InputMembers r fields ms) :
    (∀ method ∈ (inputClass fields ms).methods, ConvertsOnly r fields method) ∧
      ∀ i ∈ fields, ∃ method ∈ (inputClass fields ms).methods, Converts r method i := by
  have hmember : ∀ m ∈ ms, ∃ i ∈ fields, TakesValuesOf r m.toParam i := by
    intro m hm
    obtain ⟨f, hf, hfor⟩ := Outcome.mem_of_forall₂ h.for_fields m hm
    exact ⟨f, mem_constructorOrder.mp hf, hfor.takesValuesOf⟩
  constructor
  · refine List.forall_mem_cons.mpr ⟨fun n hn => ?_, List.forall_mem_map.mpr fun m hm n hn => ?_⟩
    · obtain ⟨m, hm, _, rfl⟩ := mem_converted_inputConstructor.mp hn
      exact ⟨m.toParam, List.mem_map_of_mem hm, rfl, hmember m hm⟩
    · obtain ⟨hm, hoptional⟩ := List.mem_filter.mp hm
      rw [converted_setter, List.mem_singleton] at hn
      rw [params_setter hoptional]
      exact ⟨m.toParam, List.mem_singleton_self _, hn.symm, hmember m hm⟩
  · intro i hi
    obtain ⟨m, hm, hfor⟩ := Outcome.mem_of_forall₂' h.for_fields i (mem_constructorOrder.mpr hi)
    cases ho : m.isOptional with
    | false =>
        exact ⟨_, List.mem_cons_self, m.toParam, List.mem_map_of_mem hm,
          mem_converted_inputConstructor.mpr ⟨m, hm, ho, rfl⟩, hfor.takesValuesOf⟩
    | true =>
        refine ⟨m.setter, List.mem_cons_of_mem _ (List.mem_map_of_mem
          (List.mem_filter.mpr ⟨hm, ho⟩)), m.toParam, ?_, ?_, hfor.takesValuesOf⟩
        · rw [params_setter ho]
          exact List.mem_singleton_self _
        · rw [converted_setter]
          exact List.mem_singleton_self _

/-- Whatever an item converts is passed for an input position. -/
theorem Emits.convertsOnly {part : Part} {m : Model} (h : Emits r part m) :
    ∀ method ∈ m.artifact.methods, ConvertsOnly r (inputPositions r) method := by
  cases h with
  | customScalar _ => exact List.forall_mem_nil _
  | enumeration _ h =>
      obtain ⟨_, _, h⟩ := Outcome.bind_ok.mp h
      cases h
      exact List.forall_mem_nil _
  | inputObject ht h =>
      obtain ⟨ms, hms, hartifact⟩ := inputObject_members h
      rw [hartifact]
      exact fun method hm => ((inputClass_converts hms).1 method hm).mono fun i hi =>
        List.mem_append_right _ (List.mem_flatMap.mpr ⟨_, ht, hi⟩)
  | interface _ h =>
      obtain ⟨found, hfound, h⟩ := Outcome.bind_ok.mp h
      cases h
      refine List.forall_mem_map.mpr (Outcome.forall_mem_of_forall₂ (accessors_ok hfound).1 ?_)
      rintro _ f _ ⟨_, _, _, rfl⟩
      exact convertsOnly_of_nil rfl
  | outputObject _ h =>
      -- an object reads what has been received, and its own methods and those for its interfaces
      -- convert nothing
      obtain ⟨members, conformances, _, hconformances, rfl⟩ := outputObject_ok h
      refine List.forall_mem_append.mpr
        ⟨fun method hm => convertsOnly_of_nil (converted_objectMethods _ _ method hm),
          List.forall_mem_flatMap.mpr fun c hc method hm => convertsOnly_of_nil ?_⟩
      obtain ⟨_, _, _, hmethods⟩ := conformances_conforming hconformances c hc
      obtain ⟨f, _, _, _, _, _, _, _, _, _, rfl⟩ := Outcome.mem_of_forall₂ hmethods method hm
      rfl
  | selectionBuilder ht h =>
      obtain ⟨ms, hms, hartifact, _⟩ := selectionBuilder_members h
      rw [hartifact]
      refine List.forall_mem_map.mpr fun member hm => ?_
      obtain ⟨f, hf, hfor⟩ := Outcome.mem_of_forall₂ hms.for_fields member hm
      exact hfor.converts.1.mono fun i hi => List.mem_append_left _ (List.mem_append_right _
        (List.mem_flatMap.mpr ⟨_, ht, List.mem_flatMap.mpr ⟨f, hf, hi⟩⟩))
  | service h =>
      obtain ⟨members, hmembers, hartifact⟩ := service_members h
      rw [hartifact]
      refine List.forall_mem_map.mpr fun member hm => ?_
      obtain ⟨o, ho, hmember⟩ := Outcome.mem_of_forall₂' hmembers.for_operations member hm
      exact (operationMember_converts hmember).1.mono fun i hi => List.mem_append_left _
        (List.mem_append_left _ (List.mem_flatMap.mpr ⟨o, ho, hi⟩))

/-- For every input position some item of the client converts what is passed. -/
theorem exists_converts {ms : List Model} (h : models r = .ok ms) :
    ∀ i ∈ inputPositions r, ∃ m ∈ ms, ∃ method ∈ m.artifact.methods, Converts r method i := by
  refine List.forall_mem_append.mpr ⟨List.forall_mem_append.mpr ⟨?_, ?_⟩, ?_⟩
  · obtain ⟨item, hitem, hemit⟩ := exists_service h
    obtain ⟨members, hmembers, hartifact⟩ := service_members hemit
    refine List.forall_mem_flatMap.mpr fun o ho i hi => ?_
    obtain ⟨member, hm, hmember⟩ := Outcome.mem_of_forall₂ hmembers.for_operations o ho
    refine ⟨item, hitem, member.method, ?_, (operationMember_converts hmember).2 i hi⟩
    rw [hartifact]
    exact List.mem_map_of_mem hm
  · refine List.forall_mem_flatMap.mpr fun t ht => List.forall_mem_flatMap.mpr fun f hf i hi => ?_
    obtain ⟨m, hm, hemit⟩ := exists_item h .selectionBuilder ht
    obtain ⟨members, hmembers, hartifact, _⟩ := selectionBuilder_members hemit
    obtain ⟨member, hmember, hfor⟩ := Outcome.mem_of_forall₂' hmembers.for_fields f hf
    refine ⟨m, hm, member.method, ?_, hfor.converts.2 i hi⟩
    rw [hartifact]
    exact List.mem_map_of_mem hmember
  · refine List.forall_mem_flatMap.mpr fun t ht i hi => ?_
    obtain ⟨m, hm, hemit⟩ := exists_item h .inputObject ht
    obtain ⟨members, hmembers, hartifact⟩ := inputObject_members hemit
    obtain ⟨method, hmethod, hconverts⟩ := (inputClass_converts hmembers).2 i hi
    exact ⟨m, hm, method, by rw [hartifact]; exact hmethod, hconverts⟩

/-! ## Types -/

/-- A built-in scalar, a custom scalar, an enum or an input object. What a hand-written item stands
for is taken to be one of these. -/
def IsInputType (r : Registry) (name : String) : Prop :=
  (Primitive.ofName? name).isSome = true ∨
    ∃ t ∈ r.types, t.name = name ∧
      (t.isSubstituted = true ∨ t.category ∈ [.customScalar, .enumeration, .inputObject])

/-- An output object that gets an item. -/
def IsOutputObject (r : Registry) (name : String) : Prop :=
  ∃ t ∈ primary r .outputObject, t.name = name

/-- Values of the type can be converted: it is built in or written by hand, or among `ms` is an item
for it whose values have a literal. -/
def HasConversion (r : Registry) (ms : List Model) (name : String) : Prop :=
  (Primitive.ofName? name).isSome = true ∨
    ∃ t ∈ r.types, t.name = name ∧
      (t.isSubstituted = true ∨
        ∃ m ∈ ms, m.typeName = name ∧ m.artifact.isInput = true ∧ Rust.GivesLiteral m)

theorem isInput_iff_of_isConcrete {t : RegisteredType} (h : t.IsConcrete) :
    (t.isSubstituted = true ∨ t.category ∈ [.customScalar, .enumeration, .inputObject]) ↔
      ¬ (t.category = .outputObject ∧ t.isSubstituted = false) := by
  obtain ⟨hunion, hinterface⟩ := h
  cases hs : t.isSubstituted with
  | true => simp
  | false => cases hc : t.category <;> simp_all

/-- Of the types that have values at all only output objects are no input types. -/
theorem isInputType_iff {home : Namespace} (hr : r.WellFormed home) {type : Schema.TypeRef}
    {context : String} {resolved : ResolvedType}
    (h : resolveConcrete r type context = .ok resolved) :
    IsInputType r type.baseName ↔ ¬ IsOutputObject r type.baseName := by
  obtain ⟨hresolve, hbase⟩ := resolveConcrete_ok.mp h
  have htarget := Registry.resolve_base hresolve
  cases hb : resolved.base with
  | builtin p =>
      rw [hb] at htarget
      have hp := Registry.target?_eq_builtin htarget
      refine iff_of_true (.inl (by rw [hp]; rfl)) ?_
      rintro ⟨t, ht, hname⟩
      rw [← hname, hr.notBuiltin t (mem_primary.mp ht).1] at hp
      cases hp
  | registered name category path =>
      rw [hb] at htarget hbase
      obtain ⟨rfl, t, hfind, rfl, rfl⟩ := Registry.target?_eq_registered htarget
      obtain ⟨t', hfind', _, _, hconcrete⟩ := hbase
      cases hfind.symm.trans hfind'
      obtain ⟨ht, hname⟩ := Registry.mem_of_find? hfind
      have hunique : ∀ t' ∈ r.types, t'.name = type.baseName → t' = t := fun t' ht' hname' =>
        List.inj_on_of_nodup_map hr.nodup ht' ht (hname'.trans hname.symm)
      have hinput : IsInputType r type.baseName ↔
          (t.isSubstituted = true ∨ t.category ∈ [.customScalar, .enumeration, .inputObject]) := by
        constructor
        · rintro (hp | ⟨t', ht', hname', h⟩)
          · rw [← hname, hr.notBuiltin t ht] at hp
            cases hp
          · exact hunique t' ht' hname' ▸ h
        · exact fun h => .inr ⟨t, ht, hname, h⟩
      have houtput : IsOutputObject r type.baseName ↔
          (t.category = .outputObject ∧ t.isSubstituted = false) := by
        constructor
        · rintro ⟨t', ht', hname'⟩
          obtain ⟨hmem', h⟩ := mem_primary.mp ht'
          exact hunique t' hmem' hname' ▸ h
        · exact fun h => ⟨t, mem_primary.mpr ⟨ht, h⟩, hname⟩
      rw [hinput, houtput, isInput_iff_of_isConcrete hconcrete]

/-- An item whose values have a literal is for an input type. -/
theorem Emits.isInput {part : Part} {m : Model} (h : Emits r part m)
    (hm : m.artifact.isInput = true) :
    ∃ t ∈ r.types, t.name = m.typeName ∧
      t.category ∈ [.customScalar, .enumeration, .inputObject] := by
  have hservice : part ≠ .service := by
    rintro rfl
    cases h with
    | service h =>
        obtain ⟨_, _, cls, hartifact⟩ := service_placed h
        rw [hartifact] at hm
        cases hm
  obtain ⟨t, ht, hitem⟩ := h.item hservice
  cases hitem with
  | customScalar | enumeration | inputObject =>
      obtain ⟨hmem, hcategory, _⟩ := mem_primary.mp ht
      exact ⟨t, hmem, rfl, by simp [hcategory]⟩
  | _ => cases hm

/-- Every input type has an item, unless it is substituted. -/
theorem exists_isInput {ms : List Model} (h : models r = .ok ms) {t : RegisteredType}
    (ht : t ∈ r.types) (hs : t.isSubstituted = false)
    (hc : t.category ∈ [.customScalar, .enumeration, .inputObject]) :
    ∃ m ∈ ms, m.typeName = t.name ∧ m.artifact.isInput = true := by
  have hitem : ∀ part : Part, part ∈ [.customScalar, .enumeration, .inputObject] →
      t ∈ part.subjects r → ∃ m ∈ ms, m.typeName = t.name ∧ m.artifact.isInput = true := by
    intro part hpart hmem
    obtain ⟨m, hm, hemit⟩ := exists_item h part hmem
    have hitem := Part.item_of_emit hemit (by rintro rfl; cases hmem)
    refine ⟨m, hm, ?_⟩
    cases hitem with
    | customScalar | enumeration | inputObject => exact ⟨rfl, rfl⟩
    | _ => simp at hpart
  cases hcat : t.category with
  | customScalar => exact hitem .customScalar (by decide) (mem_primary.mpr ⟨ht, hcat, hs⟩)
  | enumeration => exact hitem .enumeration (by decide) (mem_primary.mpr ⟨ht, hcat, hs⟩)
  | inputObject => exact hitem .inputObject (by decide) (mem_primary.mpr ⟨ht, hcat, hs⟩)
  | _ =>
      rw [hcat] at hc
      simp at hc

/-- Exactly the input types have the conversion. -/
theorem hasConversion_iff {ms : List Model} (h : models r = .ok ms) {name : String} :
    HasConversion r ms name ↔ IsInputType r name := by
  refine or_congr_right ⟨?_, ?_⟩
  · rintro ⟨t, ht, hname, hs | ⟨m, hm, hsame, hinput, _⟩⟩
    · exact ⟨t, ht, hname, .inl hs⟩
    · obtain ⟨part, hemits⟩ := (mem_models h).mp hm
      obtain ⟨t', ht', hname', hcategory⟩ := hemits.isInput hinput
      exact ⟨t', ht', hname'.trans hsame, .inr hcategory⟩
  · rintro ⟨t, ht, hname, hinput⟩
    cases hs : t.isSubstituted with
    | true => exact ⟨t, ht, hname, .inl hs⟩
    | false =>
        obtain ⟨m, hm, hsame,
          hliteral⟩ := exists_isInput h ht hs (hinput.resolve_left (by simp [hs]))
        exact ⟨t, ht, hname, .inr ⟨m, hm, hsame.trans hname, hliteral,
          Rust.givesLiteral_of_isInput hliteral⟩⟩

/-- A client converts what is passed for each input position, and nothing else. The type of such a
position is an input type, unless it is an output object, and then it has no conversion. -/
theorem models_convert {document : Schema.Document} {home : Namespace}
    {substitutions : Substitutions} {warnings : List Warning} {ms : List Model}
    (hr : Registry.build document home substitutions = .ok (r, warnings)) (h : models r = .ok ms) :
    (∀ m ∈ ms, ∀ method ∈ m.artifact.methods, ConvertsOnly r (inputPositions r) method) ∧
    ∀ i ∈ inputPositions r,
      (∃ m ∈ ms, ∃ method ∈ m.artifact.methods, Converts r method i) ∧
      (IsInputType r i.type.baseName ↔ ¬ IsOutputObject r i.type.baseName) ∧
      (HasConversion r ms i.type.baseName ↔ IsInputType r i.type.baseName) := by
  have hw := Registry.wellFormed_of_build hr
  refine ⟨fun m hm => ?_, fun i hi => ?_⟩
  · obtain ⟨part, hemits⟩ := (mem_models h).mp hm
    exact hemits.convertsOnly
  · obtain ⟨m, hm, method, hmethod, hconverts⟩ := exists_converts h i hi
    obtain ⟨context, resolved, hres⟩ := hconverts.exists_resolved
    exact ⟨⟨m, hm, method, hmethod, hconverts⟩, isInputType_iff hw hres, hasConversion_iff h⟩

end

/-- Scalars, enums and input objects are passed to operations, to a field of a hand-written item and
within an input object. -/
theorem models_convert_library : ∃ r warnings ms,
    Registry.build library .default [("Person", "crate::people::Person")] = .ok (r, warnings) ∧
    models r = .ok ms ∧
    (inputPositions r).map (·.type.baseName) = ["Filter", "Date", "Filter", "Genre", "Filter"] ∧
    (∀ m ∈ ms, ∀ method ∈ m.artifact.methods, ConvertsOnly r (inputPositions r) method) ∧
    ∀ i ∈ inputPositions r,
      (∃ m ∈ ms, ∃ method ∈ m.artifact.methods, Converts r method i) ∧
      (IsInputType r i.type.baseName ↔ ¬ IsOutputObject r i.type.baseName) ∧
      (HasConversion r ms i.type.baseName ↔ IsInputType r i.type.baseName) := by
  have hrun : Outcome.any (Registry.build library .default [("Person", "crate::people::Person")])
      (fun out => Outcome.any (models out.1) fun _ =>
        (inputPositions out.1).map (·.type.baseName) =
          ["Filter", "Date", "Filter", "Genre", "Filter"]) = true := by
    decide +kernel
  obtain ⟨⟨r, warnings⟩, hr, hrun⟩ := Outcome.any_eq_true.mp hrun
  obtain ⟨ms, hms, hnames⟩ := Outcome.any_eq_true.mp hrun
  exact ⟨r, warnings, ms, hr, hms, of_decide_eq_true hnames, models_convert hr hms⟩

/-- The argument of an operation has the type of an output object. -/
def objectArgument : Schema.Document where
  definitions := [
    ⟨"T", none, .object [] [⟨"y", none, [], .named "Int"⟩]⟩,
    ⟨"Query", none, .object [] [⟨"a", none, [⟨"x", none, .named "T", none⟩], .named "Int"⟩]⟩]
  roots := {}

/-- A client is generated for it, in which values that have no literal are converted. -/
theorem exists_not_hasConversion : ∃ r warnings ms,
    Registry.build objectArgument .default [] = .ok (r, warnings) ∧ models r = .ok ms ∧
    ∃ i ∈ inputPositions r, ¬ IsInputType r i.type.baseName ∧
      ¬ HasConversion r ms i.type.baseName ∧
      ∃ m ∈ ms, ∃ method ∈ m.artifact.methods, Converts r method i := by
  have hrun : Outcome.any (Registry.build objectArgument .default []) (fun out =>
      Outcome.any (models out.1) fun _ => (inputPositions out.1).any fun i =>
        (primary out.1 .outputObject).any (·.name = i.type.baseName)) = true := by
    decide +kernel
  obtain ⟨⟨r, warnings⟩, hr, hrun⟩ := Outcome.any_eq_true.mp hrun
  obtain ⟨ms, h, htest⟩ := Outcome.any_eq_true.mp hrun
  obtain ⟨i, hi, htest⟩ := List.any_eq_true.mp htest
  obtain ⟨t, ht, hname⟩ := List.any_eq_true.mp htest
  obtain ⟨m, hm, method, hmethod, hconverts⟩ := exists_converts h i hi
  obtain ⟨context, resolved, hres⟩ := hconverts.exists_resolved
  have hinput : ¬ IsInputType r i.type.baseName := fun hinput =>
    (isInputType_iff (Registry.wellFormed_of_build hr) hres).mp hinput
      ⟨t, ht, of_decide_eq_true hname⟩
  exact ⟨r, warnings, ms, hr, h, i, hi, hinput, fun hconversion =>
    hinput ((hasConversion_iff h).mp hconversion), m, hm, method, hmethod, hconverts⟩

end Client

end Graphwright
