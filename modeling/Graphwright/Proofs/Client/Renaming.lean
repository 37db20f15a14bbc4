import Graphwright.Client.Basic
import Graphwright.Proofs.Client.Coverage
import Graphwright.Proofs.Client.Emission
import Graphwright.Proofs.Client.Reachability
import Graphwright.Proofs.Code.Renaming

/-!
# Generators follow the paths of a registry

Generators look types up by name and take their paths as they find them. If another registry has
the same types under other paths, then each generator gives the same item with the paths replaced.
Nothing depends on the order of the types, and two references that are the same stay so.
-/
namespace Graphwright

/-- The same type at another path. Only where objects and interfaces are concerned do generators ask
whether a hand-written item replaces it. -/
structure RegisteredType.Renames (f : String → String) (t t' : RegisteredType) : Prop where
  definition : t'.definition = t.definition
  path : t'.artifactPath = f t.artifactPath
  substituted : t.category = .outputObject ∨ t.category = .interface →
    t'.isSubstituted = t.isSubstituted

namespace RegisteredType.Renames

variable {f : String → String} {t t' : RegisteredType}

theorem name_eq (h : t.Renames f t') : t'.name = t.name := congrArg (·.name) h.definition

theorem category_eq (h : t.Renames f t') : t'.category = t.category :=
  congrArg (·.category) h.definition

end RegisteredType.Renames

/-- The same types at other paths; the selection builders stay where they are. -/
structure Registry.Renames (f : String → String) (r r' : Registry) : Prop where
  home : r'.home = r.home
  queries : r'.queries = r.queries
  mutations : r'.mutations = r.mutations
  find : ∀ name, r.find? name = none ∧ r'.find? name = none ∨
    ∃ t t', r.find? name = some t ∧ r'.find? name = some t' ∧ t.Renames f t'
  selection : ∀ name, f (r.home.selectionPath name) = r.home.selectionPath name

section

variable {f : String → String} {r r' : Registry} (h : r.Renames f r')

include h

/-! ## References -/

namespace Registry.Renames

theorem target?_eq (name : String) : r'.target? name = (r.target? name).map (·.rename f) := by
  unfold target?
  cases Primitive.ofName? name with
  | some primitive => rfl
  | none =>
      rcases h.find name with ⟨hr, hr'⟩ | ⟨t, t', hr, hr', ht⟩
      · rw [hr, hr']
        rfl
      · rw [hr, hr']
        simp [Target.rename, ht.name_eq, ht.category_eq, ht.path]

theorem resolveLayer_eq (context : String) (nullable : Bool) (type : Schema.TypeRef) :
    r'.resolveLayer context nullable type =
      (r.resolveLayer context nullable type).map (·.rename f) := by
  induction type generalizing nullable with
  | named name =>
      simp only [resolveLayer, h.target?_eq]
      cases r.target? name <;> rfl
  | list element ih =>
      simp only [resolveLayer, ih]
      cases r.resolveLayer context true element <;> rfl
  | nonNull inner ih => exact ih false

theorem resolve_eq (type : Schema.TypeRef) (context : String) :
    r'.resolve type context = (r.resolve type context).map (·.rename f) :=
  h.resolveLayer_eq context true type

end Registry.Renames

namespace Client

open Code

theorem isSubstitutedInterface_eq (name : String) :
    isSubstitutedInterface r' name = isSubstitutedInterface r name := by
  unfold isSubstitutedInterface
  rcases h.find name with ⟨hr, hr'⟩ | ⟨t, t', hr, hr', ht⟩
  · rw [hr, hr']
  · rw [hr, hr']
    dsimp only
    rw [ht.category_eq]
    by_cases hc : t.category = .interface
    · rw [ht.substituted (Or.inr hc)]
    · simp [hc]

theorem resolveConcrete_eq (type : Schema.TypeRef) (context : String) :
    resolveConcrete r' type context = (resolveConcrete r type context).map (·.rename f) := by
  unfold resolveConcrete
  rw [h.resolve_eq, Outcome.bind_map, Outcome.map_bind]
  refine Outcome.bind_congr fun resolved _ => ?_
  rw [ResolvedType.base_rename]
  cases resolved.base with
  | builtin primitive => rfl
  | registered name category path =>
      simp only [Target.rename, isSubstitutedInterface_eq h]
      split <;> rfl

omit h in
@[simp] theorem basePath?_rename (t : ResolvedType) : basePath? (t.rename f) = (basePath? t).map f := by
  unfold basePath?
  rw [ResolvedType.base_rename]
  cases t.base <;> rfl

omit h in
@[simp] theorem selectedObject?_rename (t : ResolvedType) :
    selectedObject? (t.rename f) = selectedObject? t := by
  unfold selectedObject?
  rw [ResolvedType.base_rename]
  cases t.base with
  | builtin primitive => rfl
  | registered name category path => cases category <;> rfl

omit h in
/-- Two references that resolve are the same exactly if they are so under other paths. -/
theorem rename_inj_of_resolve {type type' : Schema.TypeRef} {context context' : String}
    {t u : ResolvedType} (ht : r.resolve type context = .ok t)
    (hu : r.resolve type' context' = .ok u) (e : t.base.rename f = u.base.rename f) :
    t.base = u.base := by
  have ht' := Registry.resolve_base ht
  have hu' := Registry.resolve_base hu
  cases hb : t.base with
  | builtin primitive =>
      cases hb' : u.base with
      | builtin primitive' => simpa [hb, hb', Target.rename] using e
      | registered name' category' path' => simp [hb, hb', Target.rename] at e
  | registered name category path =>
      cases hb' : u.base with
      | builtin primitive' => simp [hb, hb', Target.rename] at e
      | registered name' category' path' =>
          simp only [hb, hb', Target.rename, Target.registered.injEq] at e
          obtain ⟨rfl, _⟩ := e
          rw [hb] at ht'
          rw [hb'] at hu'
          obtain ⟨rfl, _⟩ := Registry.target?_eq_registered ht'
          obtain ⟨hname, _⟩ := Registry.target?_eq_registered hu'
          rw [← hname] at hu'
          exact Option.some.inj (ht'.symm.trans hu')

/-! ## The heap -/

theorem inlineObject?_eq {type : Schema.TypeRef} {context : String} {resolved : ResolvedType}
    (hres : r.resolve type context = .ok resolved) :
    inlineObject? r' (resolved.rename f) = inlineObject? r resolved := by
  unfold inlineObject?
  rw [ResolvedType.isList_rename, ResolvedType.base_rename]
  have htarget := Registry.resolve_base hres
  cases hb : resolved.base with
  | builtin primitive => rfl
  | registered name category path =>
      rw [hb] at htarget
      obtain ⟨rfl, t, hfind, rfl, rfl⟩ := Registry.target?_eq_registered htarget
      cases hc : t.category with
      | outputObject =>
          rcases h.find type.baseName with ⟨hr, _⟩ | ⟨t₁, t', hr, hr', ht⟩
          · rw [hr] at hfind
            cases hfind
          · cases hr.symm.trans hfind
            simp only [Target.rename, hr, hr', ht.substituted (Or.inl hc)]
      | _ => rfl

theorem inlineTargets_eq (name : String) : inlineTargets r' name = inlineTargets r name := by
  unfold inlineTargets
  rcases h.find name with ⟨hr, hr'⟩ | ⟨t, t', hr, hr', ht⟩
  · rw [hr, hr']
  · rw [hr, hr']
    dsimp only
    rw [ht.definition]
    split
    · refine List.filterMap_congr fun field _ => ?_
      rw [h.resolve_eq]
      cases hres : r.resolve field.type name with
      | error e => rfl
      | ok resolved => exact inlineObject?_eq h hres
    · rfl

theorem reaches_eq (start owner : String) : reaches r' start owner = reaches r start owner := by
  have hstored : Stored r' = Stored r := by
    funext a b
    rw [Stored, Stored, inlineTargets_eq h]
  rw [Bool.eq_iff_iff, reaches_iff, reaches_iff, hstored]

theorem isBoxed_eq {type : Schema.TypeRef} {context owner : String} {resolved : ResolvedType}
    (hres : r.resolve type context = .ok resolved) :
    isBoxed r' owner (resolved.rename f) = isBoxed r owner resolved := by
  unfold isBoxed
  rw [inlineObject?_eq h hres]
  cases inlineObject? r resolved with
  | none => rfl
  | some target => exact reaches_eq h target owner

/-! ## Arguments -/

def ArgumentParam.rename (f : String → String) (a : ArgumentParam) : ArgumentParam :=
  { a with type := a.type.rename f, path := a.path.map f }

def ArgumentPlan.rename (f : String → String) (plan : ArgumentPlan) : ArgumentPlan :=
  { plan with
    params := plan.params.map (·.rename f)
    setup := plan.setup.map (·.rename f)
    map := plan.map.rename f
    paths := plan.paths.map f }

theorem argumentParams_eq (owner : String) (reserved : List String) (scope : Members)
    (arguments : List Schema.Input) : argumentParams r' owner reserved scope arguments =
      (argumentParams r owner reserved scope arguments).map (List.map (·.rename f)) := by
  induction arguments generalizing scope with
  | nil => rfl
  | cons argument rest ih =>
      simp only [argumentParams, resolveConcrete_eq h, ih, Outcome.bind_map, Outcome.map_bind]
      refine Outcome.bind_congr fun resolved _ => Outcome.bind_congr fun scope _ =>
        Outcome.bind_congr fun params _ => ?_
      simp [ArgumentParam.rename, TypeExpr.rename_ofResolved, pure, Except.pure, Except.map]

omit h in
theorem ofParams_rename (params : List ArgumentParam) :
    ArgumentPlan.ofParams (params.map (·.rename f)) = (ArgumentPlan.ofParams params).rename f := by
  have hfilter : ∀ p : ArgumentParam → Bool, (∀ a : ArgumentParam, p (a.rename f) = p a) →
      (params.map (·.rename f)).filter p = (params.filter p).map (·.rename f) := by
    intro p hp
    rw [List.filter_map]
    congr 2
    funext a
    exact hp a
  have hrequired := hfilter (!·.isOptional) fun _ => rfl
  have hoptional := hfilter (·.isOptional) fun _ => rfl
  have hparam : ∀ a : ArgumentParam, (a.rename f).toParam = a.toParam.rename f := by
    intro a
    cases ho : a.isOptional <;> simp [ArgumentParam.toParam, ArgumentParam.rename, Param.rename,
      TypeExpr.rename, ho]
  have hentry : ∀ a : ArgumentParam, (a.rename f).entry = a.entry := fun _ => rfl
  have hliteral : Expr.renameEntries f ((params.filter (!·.isOptional)).map (·.entry)) =
      (params.filter (!·.isOptional)).map (·.entry) := by
    rw [Expr.renameEntries_eq, List.map_map]
    rfl
  have hpaths : (params.map (·.rename f)).filterMap (·.path) = (params.filterMap (·.path)).map f := by
    rw [List.filterMap_map, List.map_filterMap]
    rfl
  simp only [ArgumentPlan.ofParams, ArgumentPlan.rename, hrequired, hoptional, List.map_map,
    List.map_eq_nil_iff, hpaths, Function.comp_def, hparam, hentry]
  by_cases ho : params.filter (·.isOptional) = []
  · simp [ho, hliteral]
  · simp [ho, hliteral, ArgumentParam.rename, Function.comp_def]

theorem planArguments_eq (owner : String) (arguments : List Schema.Input) (reserved : List String)
    (scope : Members) : planArguments r' owner arguments reserved scope =
      (planArguments r owner arguments reserved scope).map (·.rename f) := by
  simp only [planArguments, argumentParams_eq h, Outcome.bind_map, Outcome.map_bind]
  exact Outcome.bind_congr fun params _ => congrArg Except.ok (ofParams_rename params)

/-! ## Fields of objects and interfaces -/

theorem accessors_eq (owner : String) (scope : Members) (fields : List Schema.Field) :
    accessors r' owner scope fields = (accessors r owner scope fields).map
      (List.map fun a => (a.1.rename f, a.2.map f)) := by
  induction fields generalizing scope with
  | nil => rfl
  | cons field fields ih =>
      simp only [accessors, resolveConcrete_eq h, ih, Outcome.bind_map, Outcome.map_bind]
      refine Outcome.bind_congr fun resolved _ => Outcome.bind_congr fun scope _ =>
        Outcome.bind_congr fun rest _ => ?_
      simp [borrowing, Method.rename, Returns.rename, TypeExpr.rename_ofResolved, pure, Except.pure,
        Except.map]

def OutputMember.rename (f : String → String) (m : OutputMember) : OutputMember :=
  { m with type := m.type.rename f, decoder := m.decoder.rename f, path := m.path.map f }

theorem outputMembers_eq (owner : String) (scope : Members) (fields : List Schema.Field) :
    outputMembers r' owner scope fields =
      (outputMembers r owner scope fields).map (List.map (·.rename f)) := by
  induction fields generalizing scope with
  | nil => rfl
  | cons field fields ih =>
      simp only [outputMembers, resolveConcrete_eq h, ih, Outcome.bind_map, Outcome.map_bind,
        Decoder.ofResolved_rename]
      refine Outcome.bind_congr fun resolved hres => Outcome.bind_congr fun scope _ =>
        Outcome.bind_congr fun decoder _ => Outcome.bind_congr fun rest _ => ?_
      have hboxed : isBoxed r' owner (resolved.rename f) = isBoxed r owner resolved :=
        isBoxed_eq h (resolveConcrete_ok.mp hres).1
      cases hb : isBoxed r owner resolved <;>
        simp [outputMember, OutputMember.rename, hboxed, hb, TypeExpr.rename_ofResolved, pure,
          Except.pure, Except.map]

omit h in
/-- A field satisfies an accessor in the same way. -/
theorem widening?_eq {type type' : Schema.TypeRef} {context context' : String}
    {own required : ResolvedType} (hown : r.resolve type context = .ok own)
    (hrequired : r.resolve type' context' = .ok required) :
    widening? (own.rename f) (required.rename f) = widening? own required := by
  have hinj : ∀ t : ResolvedType, t.base = own.base →
      (t.rename f = required.rename f ↔ t = required) := fun t ht =>
    ResolvedType.rename_inj (ht ▸ rename_inj_of_resolve hown hrequired)
  have hbase : own.widened.base = own.base := by cases own <;> rfl
  have hrename : (own.rename f).widened = own.widened.rename f := by cases own <;> rfl
  simp only [widening?_eq_widened, hinj own rfl, hrename, hinj own.widened hbase,
    ResolvedType.nullable_rename]

theorem conformingMethods_eq (object interface : String) (own required : List Schema.Field) :
    conformingMethods r' object interface own required =
      (conformingMethods r object interface own required).map (List.map (·.rename f)) := by
  induction required with
  | nil => rfl
  | cons field rest ih =>
      simp only [conformingMethods]
      cases own.find? (·.name = field.name) with
      | none => rfl
      | some found =>
          simp only [Outcome.ok_bind, resolveConcrete_eq h, ih, Outcome.bind_map, Outcome.map_bind]
          refine Outcome.bind_congr fun requiredType hrequired =>
            Outcome.bind_congr fun ownType hown => ?_
          rw [widening?_eq (resolveConcrete_ok.mp hown).1 (resolveConcrete_ok.mp hrequired).1]
          cases widening? ownType requiredType with
          | none => rfl
          | some widened =>
              simp only [Outcome.map_bind]
              refine Outcome.bind_congr fun rest _ => ?_
              simp [borrowing, Method.rename, Returns.rename, TypeExpr.rename_ofResolved, pure,
                Except.pure, Except.map]

theorem conformance_eq (object : String) (own : List Schema.Field) (interface : String) :
    conformance r' object own interface = (conformance r object own interface).map (·.rename f) := by
  unfold conformance
  rcases h.find interface with ⟨hr, hr'⟩ | ⟨t, t', hr, hr', ht⟩
  · rw [hr, hr']
    rfl
  · rw [hr, hr']
    dsimp only
    rw [ht.definition, ht.path]
    split
    · rw [conformingMethods_eq h, Outcome.bind_map, Outcome.map_bind]
      exact Outcome.bind_congr fun methods _ => rfl
    · rfl

/-! ## Fields of input objects -/

def InputMember.rename (f : String → String) (m : InputMember) : InputMember :=
  { m with type := m.type.rename f, path := m.path.map f }

theorem inputMembers_eq (owner : String) (params members : Members) (fields : List Schema.Input) :
    inputMembers r' owner params members fields =
      (inputMembers r owner params members fields).map (List.map (·.rename f)) := by
  induction fields generalizing params members with
  | nil => rfl
  | cons field fields ih =>
      simp only [inputMembers, resolveConcrete_eq h, ih, Outcome.bind_map, Outcome.map_bind]
      refine Outcome.bind_congr fun resolved _ => Outcome.bind_congr fun params _ => ?_
      have hmember : ∀ rest : List InputMember,
          (⟨field, Text.shoutyCase field.name, memberName field.name,
              (TypeExpr.ofResolved (resolved.rename f)).nonNull, basePath? (resolved.rename f)⟩ ::
            rest.map (·.rename f) : List InputMember) =
          (⟨field, Text.shoutyCase field.name, memberName field.name,
              (TypeExpr.ofResolved resolved).nonNull, basePath? resolved⟩ :: rest).map
            (·.rename f) := by
        intro rest
        simp [InputMember.rename, TypeExpr.rename_ofResolved]
      by_cases hoptional : field.isOptional = true
      · rw [if_pos hoptional, if_pos hoptional, Outcome.map_bind]
        refine Outcome.bind_congr fun members _ => ?_
        rw [Outcome.map_bind]
        exact Outcome.bind_congr fun rest _ => congrArg Except.ok (hmember rest)
      · rw [if_neg hoptional, if_neg hoptional, Outcome.map_bind]
        refine Outcome.bind_congr fun members _ => ?_
        rw [Outcome.map_bind]
        exact Outcome.bind_congr fun rest _ => congrArg Except.ok (hmember rest)

/-! ## Selections and operations -/

def SelectionMember.rename (f : String → String) (m : SelectionMember) : SelectionMember :=
  { m with method := m.method.rename f, paths := m.paths.map f }

omit h in
theorem selectionMember_rename {own : String} {builder : Option String}
    (hbuilder : ∀ path ∈ builder, f path = path) (field : Schema.Field) (plan : ArgumentPlan) :
    selectionMember field own builder (plan.rename f) =
      (selectionMember field own builder plan).rename f := by
  cases builder with
  | none => simp [selectionMember, SelectionMember.rename, Method.rename, ArgumentPlan.rename,
      Returns.rename, TypeExpr.rename]
  | some path =>
      have hpath := hbuilder path rfl
      have hpaths : ((some path).filter fun p => !decide (p = own)).toList =
          ((some path).filter fun p => !decide (p = own)).toList.map f := by
        by_cases ho : path = own <;> simp [Option.filter, ho, hpath]
      simp [selectionMember, SelectionMember.rename, Method.rename, ArgumentPlan.rename,
        Returns.rename, TypeExpr.rename, nestedParam, Param.rename, hpath, ← hpaths]

theorem selectionMembers_eq (owner : String) (constants members : Members)
    (fields : List Schema.Field) : selectionMembers r' owner constants members fields =
      (selectionMembers r owner constants members fields).map (List.map (·.rename f)) := by
  induction fields generalizing constants members with
  | nil => rfl
  | cons field fields ih =>
      simp only [selectionMembers, resolveConcrete_eq h, planArguments_eq h, ih, Outcome.bind_map,
        Outcome.map_bind, selectedObject?_rename, h.home]
      refine Outcome.bind_congr fun resolved _ => Outcome.bind_congr fun constants _ =>
        Outcome.bind_congr fun members _ => Outcome.bind_congr fun plan _ =>
        Outcome.bind_congr fun rest _ => ?_
      rw [selectionMember_rename]
      · rfl
      · intro path hpath
        obtain ⟨name, _, rfl⟩ := Option.map_eq_some_iff.mp hpath
        exact h.selection name

def ServiceMember.rename (f : String → String) (m : ServiceMember) : ServiceMember :=
  { m with method := m.method.rename f, paths := m.paths.map f }

omit h in
theorem serviceMember_rename {builder : Option String}
    (hbuilder : ∀ path ∈ builder, f path = path) (kind : OperationKind) (field : Schema.Field)
    (resolved : ResolvedType) (plan : ArgumentPlan) (decoder : Decoder) :
    serviceMember kind field (resolved.rename f) builder (plan.rename f) (decoder.rename f) =
      (serviceMember kind field resolved builder plan decoder).rename f := by
  cases builder with
  | none => simp [serviceMember, ServiceMember.rename, Method.rename, ArgumentPlan.rename,
      Returns.rename, TypeExpr.rename_ofResolved, Option.toList_map]
  | some path => simp [serviceMember, ServiceMember.rename, Method.rename, ArgumentPlan.rename,
      Returns.rename, TypeExpr.rename_ofResolved, TypeExpr.rename, nestedParam, Param.rename,
      hbuilder path rfl, Option.toList_map]

theorem operationMember_eq (service : String) (kind : OperationKind) (field : Schema.Field) :
    operationMember r' service kind field =
      (operationMember r service kind field).map (·.rename f) := by
  simp only [operationMember, resolveConcrete_eq h, planArguments_eq h, Outcome.bind_map,
    Outcome.map_bind, selectedObject?_rename, Decoder.ofResolved_rename, h.home]
  refine Outcome.bind_congr fun resolved _ => Outcome.bind_congr fun plan _ =>
    Outcome.bind_congr fun decoder _ => ?_
  rw [serviceMember_rename]
  · rfl
  · intro path hpath
    obtain ⟨name, _, rfl⟩ := Option.map_eq_some_iff.mp hpath
    exact h.selection name

theorem serviceMembers_eq (service : String) (scope : Members)
    (operations : List (OperationKind × Schema.Field)) :
    serviceMembers r' service scope operations =
      (serviceMembers r service scope operations).map (List.map (·.rename f)) := by
  induction operations generalizing scope with
  | nil => rfl
  | cons operation rest ih =>
      obtain ⟨kind, field⟩ := operation
      simp only [serviceMembers, operationMember_eq h, ih, Outcome.bind_map, Outcome.map_bind]
      exact Outcome.bind_congr fun member _ => Outcome.bind_congr fun scope _ =>
        Outcome.bind_congr fun members _ => rfl

/-! ## Methods -/

omit h in
theorem filter_rename (members : List InputMember) (p : InputMember → Bool)
    (hp : ∀ m, p (m.rename f) = p m) :
    (members.map (·.rename f)).filter p = (members.filter p).map (·.rename f) := by
  rw [List.filter_map]
  congr 2
  funext m
  exact hp m

omit h in
/-- Fields are passed on by name. -/
theorem constructed_rename (members : List InputMember) :
    constructed (members.map (·.rename f)) = (constructed members).rename f := by
  have hfold : ∀ (ms : List InputMember) (object : Expr),
      (ms.foldl (fun object m => .methodCall object m.setterName [.var m.param]) object).rename f =
        ms.foldl (fun object m => .methodCall object m.setterName [.var m.param])
          (object.rename f) := by
    intro ms
    induction ms with
    | nil => exact fun _ => rfl
    | cons m ms ih => exact fun object => ih _
  rw [constructed, constructed, hfold, filter_rename _ _ fun _ => rfl,
    filter_rename _ _ fun _ => rfl, List.foldl_map]
  simp [Expr.renameEntries_eq, InputMember.entry, InputMember.rename, InputMember.setterName,
    Function.comp_def]

omit h in
theorem inputConstructor_rename (members : List InputMember) :
    inputConstructor (members.map (·.rename f)) = (inputConstructor members).rename f := by
  have hparam : ∀ m : InputMember, (m.rename f).toParam = m.toParam.rename f := by
    intro m
    cases ho : m.field.isOptional <;> simp [InputMember.toParam, InputMember.isOptional,
      InputMember.rename, Param.rename, TypeExpr.rename, ho]
  simp [inputConstructor, Method.rename, Returns.rename, TypeExpr.rename, constructed_rename,
    hparam]

omit h in
theorem setter_rename (m : InputMember) : (m.rename f).setter = m.setter.rename f := by
  simp [InputMember.setter, InputMember.rename, InputMember.setterName, Method.rename, Param.rename,
    Returns.rename, TypeExpr.rename]

omit h in
theorem initializer_rename (members : List OutputMember) :
    initializer (members.map (·.rename f)) = (initializer members).rename f := by
  simp [initializer, Method.rename, Returns.rename, TypeExpr.rename, Expr.renameFields_eq,
    OutputMember.rename, Function.comp_def]

omit h in
theorem getter_rename (m : OutputMember) : (m.rename f).getter = m.getter.rename f := by
  simp [OutputMember.getter, OutputMember.rename, borrowing, Method.rename, Returns.rename]

omit h in
theorem factory_rename (owner : String) (members : List OutputMember) :
    factory owner (members.map (·.rename f)) = (factory owner members).rename f := by
  simp [factory, Method.rename, Param.rename, Returns.rename, TypeExpr.rename, OutputMember.hydrate,
    OutputMember.rename, Function.comp_def]

/-! ## Items -/

variable {t t' : RegisteredType}

omit h in
theorem primaryModel_congr (ht : t'.definition = t.definition) (dependencies : Dependencies)
    (artifact : Artifact) : primaryModel t' dependencies artifact =
      primaryModel t dependencies artifact := by
  simp only [primaryModel, RegisteredType.name, ht]

theorem inputObject_eq (ht : t'.definition = t.definition) (fields : List Schema.Input) :
    inputObject r' t' fields = (inputObject r t fields).map (·.rename f) := by
  have hname : t'.name = t.name := congrArg (·.name) ht
  simp only [inputObject, inputMembers_eq h, Outcome.bind_map, Outcome.map_bind, hname,
    primaryModel_congr ht]
  refine Outcome.bind_congr fun constants _ => Outcome.bind_congr fun members _ => ?_
  have hoptional : (members.map (·.rename f)).filter (·.isOptional) =
      (members.filter (·.isOptional)).map (·.rename f) := List.filter_map
  have hpaths : (members.map (·.rename f)).filterMap (·.path) =
      (members.filterMap (·.path)).map f := by
    rw [List.filterMap_map, List.map_filterMap]
    rfl
  refine congrArg Except.ok ?_
  simp [Model.rename, primaryModel, Artifact.rename, Class.rename, hpaths, hoptional,
    Dependencies.rename_of, inputConstructor_rename, setter_rename]

theorem interface_eq (ht : t'.definition = t.definition) (fields : List Schema.Field) :
    Client.interface r' t' fields = (Client.interface r t fields).map (·.rename f) := by
  have hname : t'.name = t.name := congrArg (·.name) ht
  simp only [Client.interface, accessors_eq h, Outcome.bind_map, Outcome.map_bind, hname,
    primaryModel_congr ht]
  refine Outcome.bind_congr fun accessors _ => ?_
  have hpaths : (accessors.map fun a => (a.1.rename f, a.2.map f)).filterMap (·.2) =
      (accessors.filterMap (·.2)).map f := by
    rw [List.filterMap_map, List.map_filterMap]
    rfl
  refine congrArg Except.ok ?_
  simp [Model.rename, primaryModel, Artifact.rename, hpaths, Dependencies.rename_of]

theorem outputObject_eq (ht : t'.definition = t.definition) (interfaces : List String)
    (fields : List Schema.Field) : outputObject r' t' interfaces fields =
      (outputObject r t interfaces fields).map (·.rename f) := by
  have hname : t'.name = t.name := congrArg (·.name) ht
  simp only [outputObject, outputMembers_eq h, Outcome.bind_map, Outcome.map_bind, hname,
    primaryModel_congr ht, isSubstitutedInterface_eq h]
  refine Outcome.bind_congr fun members _ => ?_
  have hconformance : conformance r' t.name fields =
      fun interface => (conformance r t.name fields interface).map (·.rename f) :=
    funext fun interface => conformance_eq h t.name fields interface
  rw [hconformance, Outcome.mapM_map, Outcome.bind_map]
  refine Outcome.bind_congr fun conformances _ => congrArg Except.ok ?_
  have hpaths : (members.map (·.rename f)).filterMap (·.path) =
      (members.filterMap (·.path)).map f := by
    rw [List.filterMap_map, List.map_filterMap]
    rfl
  have hproperty : ∀ m : OutputMember, (m.rename f).property = m.property.rename f := by
    intro m
    simp [OutputMember.property, OutputMember.rename, Property.rename, TypeExpr.rename]
  simp [Model.rename, primaryModel, Artifact.rename, hpaths, Dependencies.rename_of, hproperty,
    initializer_rename, getter_rename, factory_rename, Conformance.rename, Function.comp_def]

theorem selectionBuilder_eq (ht : t'.definition = t.definition) :
    selectionBuilder r' t' = (selectionBuilder r t).map (·.rename f) := by
  have hname : t'.name = t.name := congrArg (·.name) ht
  simp only [selectionBuilder, selectionMembers_eq h, Outcome.bind_map, Outcome.map_bind, hname, ht]
  refine Outcome.bind_congr fun members _ => congrArg Except.ok ?_
  simp [Model.rename, Artifact.rename, Class.rename, Dependencies.rename_of, SelectionMember.rename,
    List.flatMap_map, List.map_flatMap]

theorem service_eq : service r' = (service r).map (·.rename f) := by
  simp only [service, serviceMembers_eq h, Outcome.bind_map, Outcome.map_bind, h.home,
    operations, h.queries, h.mutations]
  refine Outcome.bind_congr fun members _ => congrArg Except.ok ?_
  simp [Model.rename, Artifact.rename, Class.rename, Dependencies.rename_of, ServiceMember.rename,
    List.flatMap_map, List.map_flatMap]

omit h in
theorem customScalar_rename (t : RegisteredType) (items : List RuntimeItem) :
    (primaryModel t (.of items []) .customScalar).rename f =
      primaryModel t (.of items []) .customScalar := by
  simp [Model.rename, primaryModel, Dependencies.rename_of, Artifact.rename]

omit h in
theorem enumeration_eq (ht : t'.definition = t.definition) (values : List Schema.EnumValue) :
    enumeration t' values = (enumeration t values).map (·.rename f) := by
  have hname : t'.name = t.name := congrArg (·.name) ht
  simp only [enumeration, Outcome.map_bind, hname, primaryModel_congr ht]
  refine Outcome.bind_congr fun constants _ => congrArg Except.ok ?_
  simp [Model.rename, primaryModel, Dependencies.rename_of, Artifact.rename]

theorem Part.emit_eq (ht : t'.definition = t.definition) (part : Part) :
    part.emit r' t' = (part.emit r t).map (·.rename f) := by
  cases part with
  | customScalar =>
      simp only [emit, primaryModel_congr ht, Except.map, customScalar_rename]
  | enumeration => simp only [emit, ht, enumeration_eq (f := f) ht]
  | inputObject => simp only [emit, ht, inputObject_eq h ht]
  | interface => simp only [emit, ht, interface_eq h ht]
  | outputObject => simp only [emit, ht, outputObject_eq h ht]
  | selectionBuilder => simp only [emit, selectionBuilder_eq h ht]
  | service => simp only [emit, service_eq h]

end Client

end

end Graphwright
