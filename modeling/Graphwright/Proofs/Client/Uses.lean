import Graphwright.Proofs.Client.References
import Graphwright.Proofs.Client.Members
import Graphwright.Proofs.Rust.Mentions

/-!
# What items use

Besides setters of their own the methods of items call only two methods: values are converted, and
requests are sent. Main statement: an item that converts something, or sends it, depends on the item
of the client library which declares that method, and the other names that an item takes as they are
belong to constants, markers and variants.
-/
namespace Graphwright

namespace Code

theorem Expr.forall_usesInEntries {P : Use → Prop} {entries : List (Expr × Expr)} :
    (∀ u ∈ Expr.usesInEntries entries, P u) ↔
      ∀ e ∈ entries, (∀ u ∈ e.1.uses, P u) ∧ ∀ u ∈ e.2.uses, P u := by
  induction entries with
  | nil => simp
  | cons e entries ih =>
      rw [Expr.usesInEntries, List.forall_mem_append, List.forall_mem_append, ih,
        List.forall_mem_cons]

theorem Expr.usesInFields_eq_nil {fields : List (String × Expr)} (h : ∀ f ∈ fields, f.2.uses = []) :
    Expr.usesInFields fields = [] := by
  induction fields with
  | nil => rfl
  | cons f fields ih =>
      obtain ⟨hf, hfields⟩ := List.forall_mem_cons.mp h
      rw [Expr.usesInFields, hf, ih hfields, List.append_nil]

end Code

namespace Client

open Code (Expr Method Model RuntimeItem Stmt Use)

/-- What an item that depends on these items of the client library can use in its methods: the
methods of those items, setters, and constants. -/
inductive Uses (runtime : List RuntimeItem) : Use → Prop
  | conversion (h : .toInputValue ∈ runtime) : Uses runtime (.method "to_input_value")
  | setter {n param : String} (h : n = "with_" ++ param) : Uses runtime (.method n)
  | constant {n name : String} (h : n = Text.shoutyCase name) : Uses runtime (.asIs n)

theorem Uses.mono {runtime runtime' : List RuntimeItem} {u : Use} (h : Uses runtime u)
    (hsub : runtime ⊆ runtime') : Uses runtime' u := by
  cases h with
  | conversion h => exact .conversion (hsub h)
  | setter h => exact .setter h
  | constant h => exact .constant h

/-! ## Plans -/

/-- A plan with something to convert has a parameter, and so it depends on the conversion. -/
theorem uses_plan (as : List ArgumentParam) :
    ∀ u ∈ (ArgumentPlan.ofParams as).setup.flatMap (·.uses) ++ (ArgumentPlan.ofParams as).map.uses,
      Uses (ArgumentPlan.ofParams as).items u := by
  have hitems : ∀ a ∈ as, Uses (ArgumentPlan.ofParams as).items (.method "to_input_value") := by
    intro a ha
    refine .conversion ?_
    rw [ArgumentPlan.ofParams, if_neg (List.ne_nil_of_mem ha)]
    exact List.mem_cons_of_mem _ List.mem_cons_self
  have hliteral : ∀ u ∈ (Expr.arguments ((as.filter (!·.isOptional)).map (·.entry))).uses,
      Uses (ArgumentPlan.ofParams as).items u := by
    rw [Expr.uses, Expr.forall_usesInEntries, List.forall_mem_map]
    intro a ha
    have hconverted := hitems a (List.mem_of_mem_filter ha)
    exact ⟨List.forall_mem_nil _, List.forall_mem_singleton.mpr hconverted⟩
  have hinserted : ∀ u ∈ ((as.filter (·.isOptional)).map fun a =>
        Stmt.insertIfPresent (.var argumentsLocal) (.str a.argument) a.param).flatMap (·.uses),
      Uses (ArgumentPlan.ofParams as).items u := by
    rw [List.forall_mem_flatMap, List.forall_mem_map]
    intro a ha
    exact List.forall_mem_singleton.mpr (hitems a (List.mem_of_mem_filter ha))
  simp only [ArgumentPlan.ofParams] at hliteral hinserted ⊢
  split
  · exact hliteral
  · rw [List.flatMap_cons, List.append_assoc]
    exact List.forall_mem_append.mpr ⟨hliteral, List.forall_mem_append.mpr
      ⟨hinserted, List.forall_mem_nil _⟩⟩

/-! ## Members -/

theorem SelectionMember.For.uses {r : Registry} {own : String} {member : SelectionMember}
    {f : Schema.Field} (h : member.For r own f) :
    member.constant.name = Text.shoutyCase f.name ∧
      ∀ u ∈ member.method.uses, Uses member.items u := by
  obtain ⟨_, resolved, as, _, _, rfl⟩ := h
  refine ⟨rfl, ?_⟩
  obtain ⟨hsetup, hmap⟩ := List.forall_mem_append.mp (uses_plan as)
  rw [Method.uses, selectionMember, List.flatMap_append]
  refine List.forall_mem_append.mpr ⟨hsetup, ?_⟩
  simp only [List.flatMap_cons, List.flatMap_nil, List.append_nil, Stmt.uses, Expr.uses,
    List.nil_append]
  exact List.forall_mem_cons.mpr ⟨.constant rfl, hmap⟩

/-- A method of the service converts arguments, and sends the request made of them. -/
theorem operationMember_uses {r : Registry} {service : String} {kind : OperationKind}
    {f : Schema.Field} {member : ServiceMember}
    (h : operationMember r service kind f = .ok member) :
    ∀ u ∈ member.method.uses, u = .method "send" ∨ Uses member.items u := by
  obtain ⟨_, resolved, d, as, _, _, _, rfl⟩ := operationMember_ok h
  obtain ⟨hsetup, hmap⟩ := List.forall_mem_append.mp (uses_plan as)
  rw [Method.uses, serviceMember, List.flatMap_append]
  refine List.forall_mem_append.mpr ⟨fun u hu => .inr (hsetup u hu), ?_⟩
  simp only [List.flatMap_cons, List.flatMap_nil, List.append_nil, Stmt.uses, Expr.uses]
  exact List.forall_mem_append.mpr ⟨fun u hu => .inr (hmap u hu),
    List.forall_mem_singleton.mpr (.inl rfl)⟩

/-- An object that is handed from setter to setter. -/
theorem setterCalls_uses {runtime : List RuntimeItem} (optional : List InputMember) (object : Expr)
    (h : ∀ u ∈ object.uses, Uses runtime u) :
    ∀ u ∈ (optional.foldl (fun object m => .methodCall object m.setterName [.var m.param])
      object).uses, Uses runtime u := by
  induction optional generalizing object with
  | nil => exact h
  | cons m optional ih =>
      refine ih _ (List.forall_mem_cons.mpr ⟨.setter rfl, ?_⟩)
      exact List.forall_mem_append.mpr ⟨h, List.forall_mem_nil _⟩

theorem inputConstructor_uses {ms : List InputMember} {runtime : List RuntimeItem}
    (hruntime : .toInputValue ∈ runtime) (hentry : ∀ m ∈ ms, Uses runtime (.asIs m.constant)) :
    ∀ u ∈ (inputConstructor ms).uses, Uses runtime u := by
  have hrequired : ∀ u ∈ (Expr.construct [(Code.inputStore,
      .arguments ((ms.filter (!·.isOptional)).map (·.entry)))]).uses, Uses runtime u := by
    rw [Expr.uses, Expr.usesInFields, Expr.usesInFields, List.append_nil, Expr.uses,
      Expr.forall_usesInEntries, List.forall_mem_map]
    exact fun m hm => ⟨List.forall_mem_singleton.mpr (hentry m (List.mem_of_mem_filter hm)),
      List.forall_mem_singleton.mpr (.conversion hruntime)⟩
  rw [Method.uses, inputConstructor, List.flatMap_singleton]
  exact setterCalls_uses _ _ hrequired

/-- An input object converts what its constructor is passed and what a setter is passed. -/
theorem inputClass_uses {r : Registry} {fields : List Schema.Input} {ms : List InputMember}
    (hms : List.Forall₂ (·.IsEmitted r) ms (constructorOrder fields)) {runtime : List RuntimeItem}
    (hruntime : .toInputValue ∈ runtime) :
    ∀ u ∈ (inputClass fields ms).uses, Uses runtime u := by
  have hentry : ∀ m ∈ ms, Uses runtime (.asIs m.constant) := by
    intro m hm
    obtain ⟨f, _, hemitted⟩ := Outcome.mem_of_forall₂ hms m hm
    exact .constant (InputMember.for_of_isEmitted hemitted).constant
  have hsetter : ∀ m ∈ ms, ∀ u ∈ m.setter.uses, Uses runtime u := by
    intro m hm
    rw [Method.uses, InputMember.setter]
    exact List.forall_mem_cons.mpr ⟨hentry m hm,
      List.forall_mem_singleton.mpr (.conversion hruntime)⟩
  refine List.forall_mem_append.mpr ⟨?_, List.forall_mem_flatMap.mpr ?_⟩
  · rw [List.forall_mem_map, inputClass, List.forall_mem_map]
    exact fun _ _ => .constant rfl
  · exact List.forall_mem_cons.mpr ⟨inputConstructor_uses hruntime hentry, List.forall_mem_map.mpr
      fun m hm => hsetter m (List.mem_of_mem_filter hm)⟩

/-- Output objects read what has been received, and use nothing for it. -/
theorem objectMethods_uses (owner : String) (members : List OutputMember) :
    ∀ method ∈ objectMethods owner members, method.uses = [] := by
  have hinitializer : (initializer members).uses = [] := by
    rw [Method.uses, initializer, List.flatMap_singleton, Stmt.uses, Expr.uses]
    exact Expr.usesInFields_eq_nil (List.forall_mem_map.mpr fun _ _ => rfl)
  have hfactory : (factory owner members).uses = [] := by
    refine List.flatMap_eq_nil_iff.mpr (List.forall_mem_append.mpr ⟨List.forall_mem_cons.mpr
      ⟨rfl, ?_⟩, List.forall_mem_singleton.mpr rfl⟩)
    exact List.forall_mem_map.mpr fun _ _ => rfl
  refine List.forall_mem_append.mpr ⟨List.forall_mem_cons.mpr ⟨hinitializer, ?_⟩,
    List.forall_mem_singleton.mpr hfactory⟩
  exact List.forall_mem_map.mpr fun _ _ => rfl

/-! ## Items -/

/-- What an item can use. -/
inductive UsedBy (m : Model) : Use → Prop
  | uses {u} (h : Uses m.dependencies.runtime u) : UsedBy m u
  | sending {cls : Code.Class} (h : m.artifact = .service cls)
      (hruntime : .transport ∈ m.dependencies.runtime) : UsedBy m (.method "send")
  | marker {n} (h : m.artifact = .customScalar) (hn : n = Rust.Imports.markerName m) :
      UsedBy m (.asIs n)
  | variant {n values} {v : Schema.EnumValue} (h : m.artifact = .enumeration values)
      (hv : enumValue v ∈ values) (hn : n = (enumValue v).variant) : UsedBy m (.asIs n)

theorem UsedBy.of_nil {m : Model} {methods : List Method}
    (h : ∀ method ∈ methods, method.uses = []) :
    ∀ u ∈ methods.flatMap (·.uses), UsedBy m u := by
  rw [List.flatMap_eq_nil_iff.mpr h]
  exact List.forall_mem_nil _

section

variable {r : Registry} {t : RegisteredType} {m : Model}

theorem enumeration_usedBy {values : List Schema.EnumValue} (h : enumeration t values = .ok m) :
    ∀ u ∈ m.uses, UsedBy m u := by
  obtain ⟨found, hfound, h⟩ := Outcome.bind_ok.mp h
  cases h
  obtain ⟨rfl, _⟩ := enumValues_ok hfound
  refine List.forall_mem_flatMap.mpr (List.forall_mem_map.mpr fun v hv => ?_)
  exact List.forall_mem_cons.mpr ⟨.uses (.constant rfl), List.forall_mem_singleton.mpr
    (.variant rfl (List.mem_map_of_mem hv) rfl)⟩

theorem inputObject_usedBy {fields : List Schema.Input} (h : inputObject r t fields = .ok m) :
    ∀ u ∈ m.uses, UsedBy m u := by
  obtain ⟨cs, hcs, h⟩ := Outcome.bind_ok.mp h
  obtain ⟨ms, hms, h⟩ := Outcome.bind_ok.mp h
  cases h
  obtain ⟨rfl, _⟩ := inputConstants_ok hcs
  exact fun u hu => .uses (inputClass_uses (inputMembers_ok hms).1
    (Code.Dependencies.mem_runtime_of.mpr (by decide)) u hu)

theorem interface_usedBy {fields : List Schema.Field} (h : Client.interface r t fields = .ok m) :
    ∀ u ∈ m.uses, UsedBy m u := by
  obtain ⟨found, hfound, h⟩ := Outcome.bind_ok.mp h
  cases h
  refine UsedBy.of_nil (List.forall_mem_map.mpr ?_)
  refine Outcome.forall_mem_of_forall₂ (accessors_ok hfound).1 ?_
  rintro _ f _ ⟨_, _, _, rfl⟩
  rfl

theorem outputObject_usedBy {interfaces : List String} {fields : List Schema.Field}
    (h : outputObject r t interfaces fields = .ok m) : ∀ u ∈ m.uses, UsedBy m u := by
  obtain ⟨members, conformances, _, hconformances, rfl⟩ := outputObject_ok h
  refine List.forall_mem_append.mpr ⟨UsedBy.of_nil (objectMethods_uses _ _), ?_⟩
  refine List.forall_mem_flatMap.mpr fun c hc => UsedBy.of_nil ?_
  obtain ⟨_, _, _, hmethods⟩ := conformances_conforming hconformances c hc
  refine Outcome.forall_mem_of_forall₂ hmethods ?_
  rintro _ f _ ⟨_, _, _, _, _, _, _, _, rfl⟩
  rfl

theorem selectionBuilder_usedBy (h : selectionBuilder r t = .ok m) : ∀ u ∈ m.uses, UsedBy m u := by
  obtain ⟨ms, hms, h⟩ := Outcome.bind_ok.mp h
  cases h
  have hmember := Outcome.mem_of_forall₂
    ((selectionMembers_ok hms).1.imp fun _ _ => SelectionMember.for_of_isEmitted)
  refine List.forall_mem_append.mpr ⟨?_, List.forall_mem_flatMap.mpr ?_⟩
  · rw [List.forall_mem_map, List.forall_mem_map]
    intro member hm
    obtain ⟨f, _, hfor⟩ := hmember member hm
    exact .uses (.constant hfor.uses.1)
  · refine List.forall_mem_map.mpr fun member hm u hu => ?_
    obtain ⟨f, _, hfor⟩ := hmember member hm
    refine .uses ((hfor.uses.2 u hu).mono fun item hitem => ?_)
    exact Code.Dependencies.mem_runtime_of.mpr (List.mem_append_right _
      (List.mem_flatMap.mpr ⟨member, hm, hitem⟩))

theorem service_usedBy (h : service r = .ok m) : ∀ u ∈ m.uses, UsedBy m u := by
  obtain ⟨members, hmembers, h⟩ := Outcome.bind_ok.mp h
  cases h
  refine List.forall_mem_append.mpr ⟨List.forall_mem_nil _, List.forall_mem_flatMap.mpr ?_⟩
  refine List.forall_mem_map.mpr fun member hm u hu => ?_
  obtain ⟨o, _, hmember⟩ := Outcome.mem_of_forall₂' (serviceMembers_ok hmembers).1 member hm
  rcases operationMember_uses hmember u hu with rfl | huses
  · exact .sending rfl (Code.Dependencies.mem_runtime_of.mpr (List.mem_append_left _ (by decide)))
  · exact .uses (huses.mono fun item hitem => Code.Dependencies.mem_runtime_of.mpr
      (List.mem_append_right _ (List.mem_flatMap.mpr ⟨member, hm, hitem⟩)))

/-- Whatever an item uses is there for it to be used. -/
theorem Emits.usedBy {part : Part} (h : Emits r part m) : ∀ u ∈ m.uses, UsedBy m u := by
  cases h with
  | customScalar _ => exact List.forall_mem_singleton.mpr (.marker rfl rfl)
  | enumeration _ h => exact enumeration_usedBy h
  | inputObject _ h => exact inputObject_usedBy h
  | interface _ h => exact interface_usedBy h
  | outputObject _ h => exact outputObject_usedBy h
  | selectionBuilder _ h => exact selectionBuilder_usedBy h
  | service h => exact service_usedBy h

end

end Client

end Graphwright
