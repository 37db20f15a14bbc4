import Graphwright.Proofs.Client.Emission
import Graphwright.Proofs.Client.OutputObject
import Graphwright.Proofs.Code.Paths
import Graphwright.Rust.Rendering

/-!
# Paths that generated items declare

Each generator decides on its own what to refer to. All of them keep one invariant: an item depends
on every path that occurs in it, and each of these paths is that of a type which has values, or of a
selection builder.
-/
namespace Graphwright.Client

open Code

/-! ## Paths of references -/

/-- The path of the item for a type that has values, or of a selection builder. -/
def IsValuePath (r : Registry) (path : String) : Prop :=
  (∃ t ∈ r.types, t.IsConcrete ∧ t.artifactPath = path) ∨
    ∃ t ∈ selectable r, r.home.selectionPath t.name = path

theorem paths_ofResolved (t : ResolvedType) :
    (TypeExpr.ofResolved t).paths = (basePath? t).toList := by
  induction t with
  | named isNullable target => cases target <;> cases isNullable <;> rfl
  | list isNullable element ih => cases isNullable <;> exact ih

section Reference

variable {r : Registry} {type : Schema.TypeRef} {context path : String} {resolved : ResolvedType}

theorem isValuePath_of_base (h : resolveConcrete r type context = .ok resolved)
    (hp : basePath? resolved = some path) : IsValuePath r path := by
  have hc := (resolveConcrete_ok.mp h).2
  unfold basePath? at hp
  split at hp
  · cases hp
  · rename_i name category p hb
    cases hp
    rw [hb] at hc
    obtain ⟨t, hf, _, hpath, hconcrete⟩ := hc
    exact Or.inl ⟨t, (Registry.mem_of_find? hf).1, hconcrete, hpath⟩

/-- A field that lets one select has a builder for its type. -/
theorem isValuePath_of_builder (h : resolveConcrete r type context = .ok resolved)
    (hp : (selectedObject? resolved).map r.home.selectionPath = some path) :
    IsValuePath r path := by
  have hc := (resolveConcrete_ok.mp h).2
  obtain ⟨n, hn, rfl⟩ := Option.map_eq_some_iff.mp hp
  unfold selectedObject? at hn
  split at hn
  · rename_i name p hb
    cases hn
    rw [hb] at hc
    obtain ⟨t, hf, hcat, _, _⟩ := hc
    obtain ⟨ht, rfl⟩ := Registry.mem_of_find? hf
    exact Or.inr ⟨t, mem_selectable.mpr ⟨ht, Or.inl hcat⟩, rfl⟩
  · rename_i name p hb
    cases hn
    rw [hb] at hc
    obtain ⟨t, hf, hcat, _, hconcrete⟩ := hc
    obtain ⟨ht, rfl⟩ := Registry.mem_of_find? hf
    exact Or.inr ⟨t, mem_selectable.mpr ⟨ht, Or.inr ⟨hcat, hconcrete.2 hcat⟩⟩, rfl⟩
  · cases hn

end Reference

/-- The path of an item that there is: besides those of values, that of an interface which is not
substituted. -/
def IsItemPath (r : Registry) (path : String) : Prop :=
  IsValuePath r path ∨ ∃ t ∈ primary r .interface, t.generatedPath = path

/-- The paths that a part of the item at `own` declares cover those that occur in it. -/
structure Covers (r : Registry) (own : String) (declared occurring : List String) : Prop where
  subset : ∀ p ∈ occurring, p ∈ declared ∨ p = own
  occurs : ∀ p ∈ occurring, IsValuePath r p
  declares : ∀ p ∈ declared, IsItemPath r p

theorem Covers.of_subset {r : Registry} {own : String} {declared occurring : List String}
    (hsub : ∀ p ∈ occurring, p ∈ declared) (hdeclared : ∀ p ∈ declared, IsValuePath r p) :
    Covers r own declared occurring :=
  ⟨fun p hp => Or.inl (hsub p hp), fun p hp => hdeclared p (hsub p hp),
    fun p hp => Or.inl (hdeclared p hp)⟩

theorem Covers.flatMap {α : Type} {r : Registry} {own : String}
    {declared occurring : α → List String} {xs : List α}
    (h : ∀ x ∈ xs, Covers r own (declared x) (occurring x)) :
    Covers r own (xs.flatMap declared) (xs.flatMap occurring) := by
  refine ⟨fun p hp => ?_, fun p hp => ?_, fun p hp => ?_⟩
  · obtain ⟨x, hx, hp⟩ := List.mem_flatMap.mp hp
    exact ((h x hx).subset p hp).imp_left fun hp => List.mem_flatMap.mpr ⟨x, hx, hp⟩
  · obtain ⟨x, hx, hp⟩ := List.mem_flatMap.mp hp
    exact (h x hx).occurs p hp
  · obtain ⟨x, hx, hp⟩ := List.mem_flatMap.mp hp
    exact (h x hx).declares p hp

theorem Covers.dependencies {r : Registry} {own : String} {declared occurring : List String}
    (h : Covers r own declared occurring) (items : List RuntimeItem) :
    Covers r own (Dependencies.of items declared).artifacts occurring := by
  refine ⟨fun p hp => ?_, h.occurs, fun p hp => ?_⟩
  · rw [Dependencies.mem_artifacts_of]
    exact h.subset p hp
  · rw [Dependencies.mem_artifacts_of] at hp
    exact h.declares p hp

/-- An item that depends on all that occurs in it. -/
structure IsCovered (r : Registry) (m : Model) : Prop where
  values : Covers r (Rust.itemPath r.home m) m.dependencies.artifacts m.artifact.valuePaths
  interfaces : ∀ p ∈ m.artifact.interfacePaths,
    p ∈ m.dependencies.artifacts ∧ ∃ t ∈ primary r .interface, t.generatedPath = p

/-! ## Arguments -/

/-- All that refers to other items in a plan is the types of its parameters. -/
structure ArgumentPlan.IsCovered (r : Registry) (plan : ArgumentPlan) : Prop where
  params : plan.params.flatMap (·.type.paths) = plan.paths
  setup : plan.setup.flatMap (·.paths) = []
  map : plan.map.paths = []
  isValue : ∀ p ∈ plan.paths, IsValuePath r p

theorem ArgumentParam.IsEmitted.paths {r : Registry} {reserved : List String} {a : ArgumentParam}
    {i : Schema.Input} (h : a.IsEmitted r reserved i) :
    a.type.paths = a.path.toList ∧ ∀ p, a.path = some p → IsValuePath r p := by
  obtain ⟨context, resolved, hres, rfl⟩ := h
  exact ⟨by rw [TypeExpr.paths_nonNull, paths_ofResolved], fun p hp => isValuePath_of_base hres hp⟩

theorem paths_toParam (a : ArgumentParam) : a.toParam.type.paths = a.type.paths := by
  unfold ArgumentParam.toParam
  cases a.isOptional <;> rfl

theorem paths_params {args : List ArgumentParam} (h : ∀ a ∈ args, a.type.paths = a.path.toList) :
    (args.map (·.toParam)).flatMap (·.type.paths) = args.filterMap (·.path) := by
  induction args with
  | nil => rfl
  | cons a args ih =>
      have ih := ih fun b hb => h b (List.mem_cons_of_mem _ hb)
      have ha := h a List.mem_cons_self
      rw [List.map_cons, List.flatMap_cons, paths_toParam, ha, ih]
      cases hp : a.path <;> simp [hp]

theorem paths_arguments (args : List ArgumentParam) :
    (Expr.arguments (args.map (·.entry))).paths = [] := by
  rw [Expr.paths]
  induction args with
  | nil => rfl
  | cons a args ih => simpa [ArgumentParam.entry] using ih

theorem isCovered_of_planArguments {r : Registry} {owner : String} {arguments : List Schema.Input}
    {reserved : List String} {scope : Members} {plan : ArgumentPlan}
    (h : planArguments r owner arguments reserved scope = .ok plan) : plan.IsCovered r := by
  obtain ⟨args, hargs, rfl⟩ := planArguments_ok h
  have hpaths := Outcome.forall_mem_of_forall₂ (argumentParams_ok hargs).1 fun _ _ _ ha => ha.paths
  refine ⟨paths_params fun a ha => (hpaths a ha).1, ?_, ?_, ?_⟩
  · simp only [ArgumentPlan.ofParams]
    split
    · rfl
    · rw [List.flatMap_cons, Stmt.paths, paths_arguments, List.nil_append, List.flatMap_eq_nil_iff]
      intro stmt hstmt
      obtain ⟨a, _, rfl⟩ := List.mem_map.mp hstmt
      rfl
  · simp only [ArgumentPlan.ofParams]
    split
    · exact paths_arguments _
    · rfl
  · intro p hp
    obtain ⟨a, ha, hp⟩ := List.mem_filterMap.mp hp
    exact (hpaths a ha).2 p hp

/-! ## Input objects -/

theorem InputMember.IsEmitted.paths {r : Registry} {m : InputMember} {f : Schema.Input}
    (h : m.IsEmitted r f) : m.type.paths = m.path.toList ∧ ∀ p, m.path = some p → IsValuePath r p := by
  obtain ⟨context, resolved, hres, rfl⟩ := h
  exact ⟨by rw [TypeExpr.paths_nonNull, paths_ofResolved], fun p hp => isValuePath_of_base hres hp⟩

theorem paths_constructed (members : List InputMember) : (constructed members).paths = [] := by
  have hentries : ∀ ms : List InputMember,
      Expr.pathsInEntries (ms.map (·.entry)) = [] := by
    intro ms
    induction ms with
    | nil => rfl
    | cons m ms ih => simpa [InputMember.entry] using ih
  have hcalls : ∀ (ms : List InputMember) (object : Expr), object.paths = [] →
      (ms.foldl (fun object m => .methodCall object m.setterName [.var m.param]) object).paths
        = [] := by
    intro ms
    induction ms with
    | nil => exact fun _ h => h
    | cons m ms ih =>
        intro object ho
        exact ih _ (by simp [ho])
  exact hcalls _ _ (by simp [hentries])

theorem paths_inputConstructor {members : List InputMember}
    (h : ∀ m ∈ members, m.type.paths = m.path.toList) :
    ∀ p ∈ (inputConstructor members).paths, ∃ m ∈ members, m.path = some p := by
  intro p hp
  simp only [Method.paths, inputConstructor, List.flatMap_cons, Stmt.paths, paths_constructed,
    Returns.type, TypeExpr.paths, List.flatMap_nil, List.append_nil, List.mem_flatMap,
    List.mem_map] at hp
  obtain ⟨_, ⟨m, hm, rfl⟩, hp⟩ := hp
  refine ⟨m, hm, ?_⟩
  unfold InputMember.toParam at hp
  split at hp
  all_goals simpa [h m hm] using hp

theorem paths_setter {m : InputMember} (h : m.type.paths = m.path.toList) :
    ∀ p ∈ m.setter.paths, m.path = some p := by
  intro p hp
  simpa [Method.paths, InputMember.setter, h] using hp

theorem inputObject_ok {r : Registry} {t : RegisteredType} {fields : List Schema.Input} {m : Model}
    (h : inputObject r t fields = .ok m) :
    (∃ dependencies artifact, m = primaryModel t dependencies artifact) ∧ IsCovered r m := by
  obtain ⟨constants, _, h⟩ := Outcome.bind_ok.mp h
  obtain ⟨members, hmem, h⟩ := Outcome.bind_ok.mp h
  cases h
  have hpaths := Outcome.forall_mem_of_forall₂ (inputMembers_ok hmem).1 fun _ _ _ hm => hm.paths
  refine ⟨⟨_, _, rfl⟩, Covers.dependencies (.of_subset ?_ ?_) _, fun p hp => nomatch hp⟩
  · intro p hp
    rw [List.mem_filterMap]
    simp only [primaryModel, Artifact.valuePaths, List.flatMap_cons, List.mem_append,
      List.mem_flatMap, List.mem_map, List.mem_filter] at hp
    rcases hp with hp | ⟨_, ⟨m, ⟨hm, _⟩, rfl⟩, hp⟩
    · exact paths_inputConstructor (fun m hm => (hpaths m hm).1) p hp
    · exact ⟨m, hm, paths_setter (hpaths m hm).1 p hp⟩
  · intro p hp
    obtain ⟨m, hm, hp⟩ := List.mem_filterMap.mp hp
    exact (hpaths m hm).2 p hp

/-! ## Interfaces -/

theorem IsAccessor.paths {r : Registry} {a : Method × Option String} {f : Schema.Field}
    (h : IsAccessor r a f) : a.1.paths = a.2.toList ∧ ∀ p, a.2 = some p → IsValuePath r p := by
  obtain ⟨context, resolved, hres, rfl⟩ := h
  refine ⟨?_, fun p hp => isValuePath_of_base hres hp⟩
  simp [Method.paths, borrowing, paths_ofResolved]

theorem interface_ok {r : Registry} {t : RegisteredType} {fields : List Schema.Field} {m : Model}
    (h : Client.interface r t fields = .ok m) :
    (∃ dependencies artifact, m = primaryModel t dependencies artifact) ∧ IsCovered r m := by
  obtain ⟨found, hfound, h⟩ := Outcome.bind_ok.mp h
  cases h
  have hpaths := Outcome.forall_mem_of_forall₂ (accessors_ok hfound).1 fun _ _ _ ha => ha.paths
  refine ⟨⟨_, _, rfl⟩, Covers.dependencies (.of_subset ?_ ?_) _, fun p hp => nomatch hp⟩
  · intro p hp
    rw [List.mem_filterMap]
    simp only [primaryModel, Artifact.valuePaths, List.mem_flatMap, List.mem_map] at hp
    obtain ⟨_, ⟨a, ha, rfl⟩, hp⟩ := hp
    rw [(hpaths a ha).1, Option.mem_toList] at hp
    exact ⟨a, ha, hp⟩
  · intro p hp
    obtain ⟨a, ha, hp⟩ := List.mem_filterMap.mp hp
    exact (hpaths a ha).2 p hp

/-! ## Output objects -/

theorem OutputMember.IsEmitted.paths {r : Registry} {owner : String} {m : OutputMember}
    (h : m.IsEmitted r owner) :
    m.type.paths = m.path.toList ∧ m.decoder.paths = m.path.toList ∧
      ∀ p, m.path = some p → IsValuePath r p := by
  obtain ⟨context, resolved, decoder, hres, hdec, e⟩ := h
  have hdecoder := Decoder.paths_ofResolved hdec
  rw [paths_ofResolved] at hdecoder
  rw [e]
  simp only [outputMember]
  refine ⟨?_, ?_, fun p hp => isValuePath_of_base hres hp⟩
  · split <;> simp [paths_ofResolved]
  · split <;> simp [hdecoder]

theorem widening?_eq_widened (own required : ResolvedType) : widening? own required =
    if own = required then some false
    else if !own.nullable ∧ required.nullable ∧ own.widened = required then some true else none := by
  cases own <;> rfl

/-- A type satisfies itself, and if it has no absent value the type that has it besides. -/
theorem eq_or_widened_of_widening? {own required : ResolvedType} {w : Bool}
    (h : widening? own required = some w) :
    w = false ∧ own = required ∨ w = true ∧ own.nullable = false ∧ own.widened = required := by
  rw [widening?_eq_widened] at h
  split at h
  · rename_i e
    cases h
    exact Or.inl ⟨rfl, e⟩
  · split at h
    · rename_i hw
      cases h
      exact Or.inr ⟨rfl, by simpa using hw.1, hw.2.2⟩
    · cases h

/-- Widening changes the nullability of the outermost layer only. -/
theorem base_of_widening? {own required : ResolvedType} {w : Bool}
    (h : widening? own required = some w) : own.base = required.base := by
  rcases eq_or_widened_of_widening? h with ⟨_, e⟩ | ⟨_, _, e⟩
  · rw [e]
  · rw [← e]
    cases own <;> rfl

/-- A method for an interface has the paths of the object's own field. -/
theorem IsConforming.paths {r : Registry} {own : List Schema.Field} {method : Method}
    {required : Schema.Field} (h : IsConforming r own method required) :
    ∀ p ∈ method.paths, ∃ f ∈ own, ∃ context resolved,
      resolveConcrete r f.type context = .ok resolved ∧ basePath? resolved = some p := by
  obtain ⟨field, requiredType, ownType, widened, hfield, _, ⟨context, hown⟩, hw, rfl⟩ := h
  intro p hp
  refine ⟨field, List.mem_of_find?_eq_some hfield, context, ownType, hown, ?_⟩
  rw [basePath?, base_of_widening? hw]
  simpa [Method.paths, borrowing, paths_ofResolved, basePath?] using hp

theorem paths_getter {m : OutputMember} (h : m.type.paths = m.path.toList) :
    ∀ p ∈ m.getter.paths, m.path = some p := by
  intro p hp
  simpa [Method.paths, OutputMember.getter, borrowing, h] using hp

theorem paths_initializer (members : List OutputMember) : (initializer members).paths = [] := by
  have hfields : ∀ ms : List OutputMember,
      Expr.pathsInFields (ms.map fun m => (m.name, .unset)) = [] := by
    intro ms
    induction ms with
    | nil => rfl
    | cons m ms ih => exact ih
  simp [Method.paths, initializer, hfields]

theorem paths_factory {owner : String} {members : List OutputMember}
    (h : ∀ m ∈ members, m.decoder.paths = m.path.toList) :
    ∀ p ∈ (factory owner members).paths, ∃ m ∈ members, m.path = some p := by
  intro p hp
  simp only [Method.paths, factory, Returns.type, TypeExpr.paths, Stmt.paths, Expr.paths,
    Expr.pathsInList, List.flatMap_cons, List.flatMap_append, List.flatMap_nil, List.append_nil,
    List.nil_append, List.mem_flatMap, List.mem_map] at hp
  obtain ⟨_, ⟨m, hm, rfl⟩, hp⟩ := hp
  refine ⟨m, hm, ?_⟩
  simpa [OutputMember.hydrate, h m hm] using hp

/-- The methods for an interface speak of the object's own fields only. -/
theorem conformances_ok {r : Registry} {t : RegisteredType} {interfaces : List String}
    {fields : List Schema.Field} {members : List OutputMember} {conformances : List Conformance}
    (hmem : MembersOf r t.name fields members)
    (h : (interfaces.filter (!isSubstitutedInterface r ·)).mapM (conformance r t.name fields)
      = .ok conformances) :
    ∀ c ∈ conformances, (∃ t ∈ primary r .interface, t.generatedPath = c.interface) ∧
      ∀ method ∈ c.methods, ∀ p ∈ method.paths, ∃ m ∈ members, m.path = some p := by
  intro c hc
  obtain ⟨owner, howner, hpath, hmethods⟩ := conformances_conforming h c hc
  refine ⟨⟨owner, howner, hpath⟩, fun method hmethod p hp => ?_⟩
  obtain ⟨_, _, hconforming⟩ := Outcome.mem_of_forall₂ hmethods method hmethod
  obtain ⟨f, hf, context, resolved, hres, hbase⟩ := hconforming.paths p hp
  rw [← hmem.fields_eq] at hf
  obtain ⟨m, hm, rfl⟩ := List.mem_map.mp hf
  obtain ⟨context', resolved', decoder, hres', _, e⟩ := hmem.isEmitted m hm
  cases (resolveConcrete_context hres context').symm.trans hres'
  exact ⟨m, hm, e ▸ hbase⟩

theorem outputModel_ok {r : Registry} {t : RegisteredType} {m : Model} (h : EmittedObject r t m) :
    (∃ dependencies artifact, m = primaryModel t dependencies artifact) ∧ IsCovered r m := by
  obtain ⟨members, conformances, hmem, hconf, rfl⟩ := h
  have hpaths : ∀ m ∈ members, _ := fun m hm => (hmem.isEmitted m hm).paths
  have hconforms := conformances_ok hmem hconf
  have hoccurs : ∀ p ∈ (outputModel t members conformances).artifact.valuePaths,
      ∃ m ∈ members, m.path = some p := by
    intro p hp
    simp only [outputModel, objectMethods, primaryModel, Artifact.valuePaths, List.mem_append,
      List.mem_flatMap, List.mem_map, List.cons_append, List.mem_cons, List.not_mem_nil,
      or_false] at hp
    rcases hp with (⟨_, ⟨m, hm, rfl⟩, hp⟩ | ⟨method, hmethod, hp⟩) | ⟨c, hc, method, hmethod, hp⟩
    · refine ⟨m, hm, ?_⟩
      simpa [OutputMember.property, (hpaths m hm).1] using hp
    · rcases hmethod with rfl | ⟨m, hm, rfl⟩ | rfl
      · rw [paths_initializer] at hp
        cases hp
      · exact ⟨m, hm, paths_getter (hpaths m hm).1 p hp⟩
      · exact paths_factory (fun m hm => (hpaths m hm).2.1) p hp
    · exact (hconforms c hc).2 method hmethod p hp
  refine ⟨⟨_, _, rfl⟩, Covers.dependencies ⟨fun p hp => ?_, fun p hp => ?_, fun p hp => ?_⟩ _,
    fun p hp => ?_⟩
  · exact Or.inl (List.mem_append_left _ (List.mem_filterMap.mpr (hoccurs p hp)))
  · obtain ⟨m, hm, hp⟩ := hoccurs p hp
    exact (hpaths m hm).2.2 p hp
  · rcases List.mem_append.mp hp with hp | hp
    · obtain ⟨m, hm, hp⟩ := List.mem_filterMap.mp hp
      exact Or.inl ((hpaths m hm).2.2 p hp)
    · obtain ⟨c, hc, rfl⟩ := List.mem_map.mp hp
      exact Or.inr (hconforms c hc).1
  · obtain ⟨c, hc, rfl⟩ := List.mem_map.mp hp
    refine ⟨?_, (hconforms c hc).1⟩
    rw [outputModel, primaryModel, Dependencies.mem_artifacts_of]
    exact List.mem_append_right _ hp

/-! ## Selection builders -/

theorem SelectionMember.IsEmitted.covers {r : Registry} {own : String} {member : SelectionMember}
    {f : Schema.Field} (h : member.IsEmitted r own f) :
    Covers r own member.paths member.method.paths := by
  obtain ⟨context, resolved, _, _, plan, hres, hplan, e⟩ := h
  have hplan := isCovered_of_planArguments hplan
  have hbuilder : ∀ p, (selectedObject? resolved).map r.home.selectionPath = some p →
      IsValuePath r p := fun p hp => isValuePath_of_builder hres hp
  generalize (selectedObject? resolved).map r.home.selectionPath = builder at hbuilder e
  subst e
  have hoccurs : ∀ p, p ∈ (selectionMember f own builder plan).method.paths ↔
      builder = some p ∨ p ∈ plan.paths := by
    intro p
    simp only [selectionMember, Method.paths, List.flatMap_append, hplan.params,
      hplan.setup, List.flatMap_cons, List.flatMap_nil, Returns.type, List.mem_append]
    simp only [Stmt.paths, Expr.paths, hplan.map, TypeExpr.paths, List.append_nil]
    cases builder <;> simp [nestedParam, eq_comm]
  have hdeclares : ∀ p, p ∈ (selectionMember f own builder plan).paths ↔
      builder = some p ∧ p ≠ own ∨ p ∈ plan.paths := by
    intro p
    simp only [selectionMember, List.mem_append, Option.mem_toList,
      Option.filter_eq_some_iff, decide_eq_true_eq]
  refine ⟨fun p hp => ?_, fun p hp => ?_, fun p hp => ?_⟩
  · rw [hdeclares]
    rcases (hoccurs p).mp hp with hp | hp
    · by_cases e : p = own
      · exact Or.inr e
      · exact Or.inl (Or.inl ⟨hp, e⟩)
    · exact Or.inl (Or.inr hp)
  · rcases (hoccurs p).mp hp with hp | hp
    · exact hbuilder p hp
    · exact hplan.isValue p hp
  · rcases (hdeclares p).mp hp with hp | hp
    · exact Or.inl (hbuilder p hp.1)
    · exact Or.inl (hplan.isValue p hp)

theorem selectionBuilder_ok {r : Registry} {t : RegisteredType} {m : Model}
    (h : selectionBuilder r t = .ok m) :
    (m.typeName = t.name ∧ (∃ cls, m.artifact = .fieldSelection cls) ∧
      Rust.itemPath r.home m = r.home.selectionPath t.name) ∧ IsCovered r m := by
  obtain ⟨members, hmem, h⟩ := Outcome.bind_ok.mp h
  cases h
  refine ⟨⟨rfl, ⟨_, rfl⟩, rfl⟩, Covers.dependencies ?_ _, fun p hp => nomatch hp⟩
  rw [Artifact.valuePaths, List.flatMap_map]
  exact Covers.flatMap <|
    Outcome.forall_mem_of_forall₂ (selectionMembers_ok hmem).1 fun _ _ _ hm => hm.covers

/-! ## The service -/

theorem operationMember_covers {r : Registry} {own service : String} {kind : OperationKind}
    {f : Schema.Field} {member : ServiceMember}
    (h : operationMember r service kind f = .ok member) :
    Covers r own member.paths member.method.paths := by
  obtain ⟨resolved, hres, h⟩ := Outcome.bind_ok.mp h
  obtain ⟨plan, hplan, h⟩ := Outcome.bind_ok.mp h
  obtain ⟨decoder, hdec, h⟩ := Outcome.bind_ok.mp h
  have e := Outcome.pure_ok.mp h
  have hplan := isCovered_of_planArguments hplan
  have hbuilder : ∀ p, (selectedObject? resolved).map r.home.selectionPath = some p →
      IsValuePath r p := fun p hp => isValuePath_of_builder hres hp
  generalize (selectedObject? resolved).map r.home.selectionPath = builder at hbuilder e
  subst e
  have hdecoder : decoder.paths = (basePath? resolved).toList := by
    rw [Decoder.paths_ofResolved hdec, paths_ofResolved]
  have hdeclares : ∀ p, p ∈ (serviceMember kind f resolved builder plan decoder).paths ↔
      basePath? resolved = some p ∨ builder = some p ∨ p ∈ plan.paths := by
    intro p
    simp only [serviceMember, List.mem_append, Option.mem_toList, or_assoc]
  apply Covers.of_subset
  · intro p hp
    rw [hdeclares]
    simp only [serviceMember, Method.paths, List.flatMap_append, hplan.params,
      hplan.setup, List.flatMap_cons, List.flatMap_nil, Returns.type, List.mem_append] at hp
    simp only [Stmt.paths, Expr.paths, hplan.map, paths_ofResolved, hdecoder, List.nil_append] at hp
    cases builder <;> simp [nestedParam] at hp ⊢ <;> grind
  · intro p hp
    rcases (hdeclares p).mp hp with hp | hp | hp
    · exact isValuePath_of_base hres hp
    · exact hbuilder p hp
    · exact hplan.isValue p hp

theorem service_ok {r : Registry} {m : Model} (h : service r = .ok m) : IsCovered r m := by
  obtain ⟨members, hmem, h⟩ := Outcome.bind_ok.mp h
  cases h
  refine ⟨Covers.dependencies ?_ _, fun p hp => nomatch hp⟩
  rw [Artifact.valuePaths, List.flatMap_map]
  refine Covers.flatMap fun member hm => ?_
  obtain ⟨o, _, hmember⟩ := Outcome.mem_of_forall₂' (serviceMembers_ok hmem).1 member hm
  exact operationMember_covers hmember

/-! ## All items -/

theorem isCovered_of_no_paths {r : Registry} {m : Model} (hd : m.dependencies.artifacts = [])
    (hv : m.artifact.valuePaths = []) (hi : m.artifact.interfacePaths = []) : IsCovered r m :=
  ⟨.of_subset (by simp [hv]) (by simp [hd]), by simp [hi]⟩

theorem Emits.isCovered {r : Registry} {part : Part} {m : Model} (h : Emits r part m) :
    IsCovered r m := by
  cases h with
  | customScalar _ => exact isCovered_of_no_paths rfl rfl rfl
  | enumeration _ h =>
      obtain ⟨values, _, h⟩ := Outcome.bind_ok.mp h
      cases h
      exact isCovered_of_no_paths rfl rfl rfl
  | inputObject _ h => exact (inputObject_ok h).2
  | interface _ h => exact (interface_ok h).2
  | outputObject _ h => exact (outputModel_ok (outputObject_ok h)).2
  | selectionBuilder _ h => exact (selectionBuilder_ok h).2
  | service h => exact service_ok h

end Graphwright.Client
