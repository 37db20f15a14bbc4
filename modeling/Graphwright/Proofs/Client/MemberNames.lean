import Graphwright.Proofs.Client.Enumeration
import Graphwright.Proofs.Client.Interfaces
import Graphwright.Proofs.Rust.Spelling
import Graphwright.Proofs.Text.Marks
import Graphwright.Rust.Ident

/-!
# Names within generated items

Within each scope of a generated item the names that are claimed, those that are reserved for
functions which every item of the kind has, and those of locals are distinct, and they stay so where
keywords are escaped: an escaped keyword ends in an underscore, and no claimed name could be taken
for one.
-/
namespace Graphwright

/-! ## Escaping -/

namespace Rust

namespace Ident

theorem ofName_name {name : String} (h : '#' ∉ name.toList) {i : Ident} (hi : ofName name = .ok i) :
    i.name = name := by
  rw [ofName, rawName?_eq_none h] at hi
  dsimp only at hi
  split at hi
  · cases hi
    rfl
  · cases hi

theorem escaped_name {name : String} (h : '#' ∉ name.toList) {i : Ident} (hi : escaped name = .ok i) :
    i.name = if name ∈ pathKeywords then name ++ "_" else name := by
  unfold escaped at hi
  split at hi
  · rw [if_pos ‹_›]
    refine ofName_name ?_ hi
    rw [String.toList_append, List.mem_append]
    exact fun hmem => hmem.elim h (by decide)
  · rw [if_neg ‹_›]
    split at hi
    · have hraw : rawName? ("r#" ++ name) = some name.toList := by
        rw [rawName?, String.toList_append]
        rfl
      rw [ofName, hraw] at hi
      dsimp only at hi
      split at hi
      · cases hi
        exact String.ofList_toList
      · cases hi
    · exact ofName_name h hi

/-- The name is no raw identifier and none that a keyword is escaped to, so no other name is spelled
as it is. -/
structure IsOwn (name : String) : Prop where
  not_mem : '#' ∉ name.toList
  ne_escaped : ∀ k ∈ pathKeywords, name ≠ k ++ "_"

instance (name : String) : Decidable (IsOwn name) :=
  decidable_of_iff ('#' ∉ name.toList ∧ ∀ k ∈ pathKeywords, name ≠ k ++ "_")
    ⟨fun h => ⟨h.1, h.2⟩, fun h => ⟨h.not_mem, h.ne_escaped⟩⟩

theorem IsOwn.eq_of_name {a b : String} (ha : IsOwn a) (hb : IsOwn b) {i j : Ident}
    (hi : escaped a = .ok i) (hj : escaped b = .ok j) (h : i.name = j.name) : a = b := by
  rw [escaped_name ha.not_mem hi, escaped_name hb.not_mem hj] at h
  split at h <;> split at h
  · exact String.append_left_inj _ |>.mp h
  · exact absurd h.symm (hb.ne_escaped a ‹_›)
  · exact absurd h (ha.ne_escaped b ‹_›)
  · exact h

/-- Were underscores behind a name kept, two names could be spelled alike. -/
example : escaped "self" = escaped "self_" := by decide +kernel

theorem isOwn_of_getLast? {name : String} (hmem : '#' ∉ name.toList)
    (hlast : name.toList.getLast? ≠ some '_') : IsOwn name := by
  refine ⟨hmem, fun k _ h => hlast ?_⟩
  rw [h, String.toList_append]
  exact List.getLast?_concat ..

/-- A name behind a prefix that no keyword starts like. -/
theorem isOwn_append {start name : String} {c : Char} {cs : List Char}
    (hstart : start.toList = c :: cs) (hown : IsOwn start)
    (hk : ∀ k ∈ pathKeywords, (k ++ "_").toList.head? ≠ some c) (hmem : '#' ∉ name.toList) :
    IsOwn (start ++ name) := by
  refine ⟨?_, fun k hkeyword h => hk k hkeyword ?_⟩
  · rw [String.toList_append, List.mem_append]
    exact fun h => h.elim hown.not_mem hmem
  · rw [← h, String.toList_append, hstart]
    rfl

end Ident

/-- Names of one scope that are distinct however they are spelled, apart from those that cannot be
spelled at all. -/
def Distinct (spell : String → Except Failure Ident) (scope : List String) : Prop :=
  scope.Pairwise fun a b => ∀ i j, spell a = .ok i → spell b = .ok j → i.name ≠ j.name

theorem distinct_ofName {scope : List String} (hn : scope.Nodup)
    (h : ∀ name ∈ scope, '#' ∉ name.toList) : Distinct Ident.ofName scope := by
  refine hn.imp_of_mem fun ha hb hne i j hi hj heq => hne ?_
  rwa [Ident.ofName_name (h _ ha) hi, Ident.ofName_name (h _ hb) hj] at heq

theorem distinct_escaped {scope : List String} (hn : scope.Nodup)
    (h : ∀ name ∈ scope, Ident.IsOwn name) : Distinct Ident.escaped scope :=
  hn.imp_of_mem fun ha hb hne _ _ hi hj heq => hne ((h _ ha).eq_of_name (h _ hb) hi hj heq)

end Rust

/-! ## Scopes -/

namespace Code

/-- The local that a statement introduces. -/
def Stmt.bound? : Stmt → Option String
  | bind name _ _ => some name
  | _ => none

/-- The parameters and the locals of a method. -/
def Method.localNames (m : Method) : List String :=
  m.params.map (·.name) ++ m.body.filterMap (·.bound?)

/-- The scopes of methods: one for all of them and for the functions that are `added` to them, and
one in each. -/
def methodScopes (added : List String) (ms : List Method) : List (List String) :=
  (added ++ ms.map (·.name)) :: ms.map (·.localNames)

/-- The scopes whose names are taken as they are: constants, and the variants of an enum. -/
def Artifact.plainScopes : Artifact → List (List String)
  | enumeration values => [values.map (·.constant), values.map (·.variant)]
  | inputObject cls => [cls.constants.map (·.name)]
  | fieldSelection cls => [cls.constants.map (·.name)]
  | _ => []

/-- The scopes in which keywords are escaped, with the names of the functions that all items of a
kind have. -/
def Artifact.escapedScopes : Artifact → List (List String)
  | customScalar => []
  | enumeration values => ["options" :: values.map (·.accessor)]
  | inputObject cls => methodScopes [] cls.methods
  | outputObject properties methods conformances =>
    properties.map (·.name) :: methodScopes [] methods
      ++ conformances.flatMap fun c => methodScopes [] c.methods
  | interface accessors => methodScopes [] accessors
  | fieldSelection cls => methodScopes ["new", "into_selection"] cls.methods
  | service cls => methodScopes ["new"] cls.methods

/-- No two names of one scope are spelled alike. -/
structure Artifact.DistinctNames (a : Artifact) : Prop where
  plain : ∀ scope ∈ a.plainScopes, Rust.Distinct Rust.Ident.ofName scope
  escaped : ∀ scope ∈ a.escapedScopes, Rust.Distinct Rust.Ident.escaped scope

end Code

namespace Client

open Code (Method Stmt Artifact methodScopes)
open Rust (Ident Distinct distinct_ofName distinct_escaped)

/-! ## Names of members -/

theorem isOwn_memberName (name : String) : Ident.IsOwn (memberName name) :=
  Ident.isOwn_of_getLast? (Text.not_mem_snakeCase name) (Text.getLast?_snakeCase name)

theorem isOwn_with (name : String) : Ident.IsOwn ("with_" ++ memberName name) :=
  Ident.isOwn_append (c := 'w') rfl (by decide) (by decide) (Text.not_mem_snakeCase name)

theorem isOwn_operation (kind : OperationKind) (name : String) :
    Ident.IsOwn (kind.text ++ "_" ++ memberName name) := by
  cases kind with
  | query => exact Ident.isOwn_append (c := 'q') rfl (by decide) (by decide) (Text.not_mem_snakeCase name)
  | mutation =>
      exact Ident.isOwn_append (c := 'm') rfl (by decide) (by decide) (Text.not_mem_snakeCase name)

theorem isOwn_paramName (reserved : List String) (name : String) :
    Ident.IsOwn (paramName reserved name) := by
  unfold paramName
  split
  · refine Ident.isOwn_of_getLast? ?_ ?_
    · rw [String.toList_append, List.mem_append]
      exact fun h => h.elim (Text.not_mem_snakeCase name) (by decide)
    · rw [String.toList_append, List.getLast?_append_of_ne_nil _ (by decide)]
      decide
  · exact isOwn_memberName name

/-! ## Names of locals -/

section

variable {r : Registry} {reserved : List String} {inputs : List Schema.Input}
  {as : List ArgumentParam}

/-- Planned parameters stand apart from the reserved names around them. -/
theorem Planned.distinct (h : Planned r reserved inputs as) {front back : List String}
    (hsub : (front ++ back).Sublist reserved) (hn : reserved.Nodup)
    (hown : ∀ name ∈ reserved, Ident.IsOwn name) :
    Distinct Ident.escaped (front ++ as.map (·.param) ++ back) := by
  have hperm : (front ++ as.map (·.param) ++ back).Perm (as.map (·.param) ++ (front ++ back)) := by
    rw [List.append_assoc]
    exact List.perm_append_comm_assoc ..
  have hparam : ∀ name ∈ as.map (·.param), name ∉ front ++ back ∧ Ident.IsOwn name := by
    intro name hname
    obtain ⟨a, ha, rfl⟩ := List.mem_map.mp hname
    refine ⟨fun hin => h.not_mem a ha (hsub.subset hin), ?_⟩
    obtain ⟨i, _, hi⟩ := List.mem_map.mp (h.names ▸ hname)
    exact hi ▸ isOwn_paramName reserved i.name
  refine distinct_escaped (hperm.nodup_iff.mpr ?_) fun name hname => ?_
  · exact h.nodup.append (hn.sublist hsub) fun name hname => (hparam name hname).1
  · rcases List.mem_append.mp (hperm.mem_iff.mp hname) with hname | hname
    · exact (hparam name hname).2
    · exact hown name (hsub.subset hname)

theorem sublist_setup (as : List ArgumentParam) :
    ((ArgumentPlan.ofParams as).setup.filterMap (·.bound?)).Sublist [argumentsLocal] := by
  unfold ArgumentPlan.ofParams
  dsimp only
  split
  · exact List.nil_sublist _
  · rw [List.filterMap_cons, List.filterMap_map]
    simp [Stmt.bound?, Function.comp_def]

/-- A method that takes a builder, if there is one, and the planned parameters has the locals that
its arguments are put together in, and those of its last statements. -/
theorem Planned.distinct_localNames (h : Planned r reserved inputs as) {method : Method}
    {builder : Option String} {rest : List Stmt}
    (hparams : method.params = (builder.map nestedParam).toList ++ (ArgumentPlan.ofParams as).params)
    (hbody : method.body = (ArgumentPlan.ofParams as).setup ++ rest)
    (hreserved : reserved = selectionParam :: argumentsLocal :: rest.filterMap (·.bound?))
    (hn : reserved.Nodup) (hown : ∀ name ∈ reserved, Ident.IsOwn name) :
    Distinct Ident.escaped method.localNames := by
  have hlocals : method.localNames = (builder.map fun _ => selectionParam).toList ++
      as.map (·.param) ++ ((ArgumentPlan.ofParams as).setup.filterMap (·.bound?) ++
        rest.filterMap (·.bound?)) := by
    rw [Method.localNames, hparams, hbody, List.map_append, List.filterMap_append]
    cases builder <;>
      simp [ArgumentPlan.ofParams, ArgumentParam.toParam, nestedParam, Function.comp_def]
  have hfront : (builder.map fun _ => selectionParam).toList.Sublist [selectionParam] := by
    cases builder <;> simp
  rw [hlocals]
  refine h.distinct ?_ hn hown
  rw [hreserved]
  exact hfront.append ((sublist_setup as).append (List.Sublist.refl _))

end

/-! ## Enums -/

theorem enumeration_distinctNames {t : RegisteredType} {values : List Schema.EnumValue}
    {m : Code.Model} (h : enumeration t values = .ok m) : m.artifact.DistinctNames := by
  obtain ⟨found, hfound, h⟩ := Outcome.bind_ok.mp h
  cases h
  obtain ⟨rfl, hnames⟩ := enumValues_ok hfound
  refine ⟨?_, ?_⟩
  · refine List.forall_mem_cons.mpr ⟨distinct_ofName hnames.constants.nodup ?_,
      List.forall_mem_singleton.mpr (distinct_ofName hnames.variants.nodup ?_)⟩
    · rw [List.map_map, List.forall_mem_map]
      exact fun v _ => Text.not_mem_shoutyCase v.name
    · rw [List.map_map, List.forall_mem_map]
      intro v _
      change '#' ∉ (enumValue v).variant.toList
      rw [variant_eq]
      split
      · rw [String.toList_append, List.mem_append]
        exact fun h => h.elim (Text.not_mem_upperCamelCase v.name) (by decide)
      · exact Text.not_mem_upperCamelCase v.name
  · have haccessors := hnames.accessors.nodup_append (List.nodup_singleton "options")
    refine List.forall_mem_singleton.mpr (distinct_escaped haccessors ?_)
    refine List.forall_mem_cons.mpr ⟨by decide, ?_⟩
    rw [List.map_map, List.forall_mem_map]
    exact fun v _ => isOwn_memberName v.name

/-! ## Interfaces -/

/-- The methods for the fields of an interface have distinct names and no locals. -/
theorem distinct_accessors {fields : List Schema.Field} {methods : List Method}
    (h : List.Forall₂ (fun method f => method.name = memberName f.name ∧ method.localNames = [])
      methods fields) (hnodup : (fields.map (memberName ·.name)).Nodup) :
    ∀ scope ∈ methodScopes [] methods, Distinct Ident.escaped scope := by
  have hnames : methods.map (·.name) = fields.map (memberName ·.name) :=
    Outcome.map_eq_of_forall₂ h fun _ _ _ hm => hm.1
  have hlocals := Outcome.forall_mem_of_forall₂ h fun _ _ _ hm => hm.2
  refine List.forall_mem_cons.mpr ⟨?_, ?_⟩
  · rw [List.nil_append, hnames]
    refine distinct_escaped hnodup ?_
    rw [List.forall_mem_map]
    exact fun f _ => isOwn_memberName f.name
  · rw [List.forall_mem_map]
    intro method hmethod
    rw [hlocals method hmethod]
    exact .nil

theorem interface_distinctNames {r : Registry} {t : RegisteredType} {fields : List Schema.Field}
    {m : Code.Model} (h : interface r t fields = .ok m) : m.artifact.DistinctNames := by
  obtain ⟨found, hfound, _, hartifact⟩ := interface_accessors h
  rw [hartifact]
  obtain ⟨haccessors, hnames⟩ := accessors_ok hfound
  refine ⟨List.forall_mem_nil _, distinct_accessors ?_ hnames.nodup⟩
  rw [List.forall₂_map_left_iff]
  refine haccessors.imp ?_
  rintro _ f ⟨_, _, _, rfl⟩
  exact ⟨rfl, rfl⟩

/-! ## Output objects -/

theorem MembersOf.isOwn {r : Registry} {owner : String} {fields : List Schema.Field}
    {members : List OutputMember} (h : MembersOf r owner fields members) :
    ∀ m ∈ members, Ident.IsOwn m.name := by
  intro m hm
  rw [(h.isEmitted m hm).name_eq]
  exact isOwn_memberName m.field.name

theorem objectMethods_distinct {r : Registry} {owner : String} {fields : List Schema.Field}
    {members : List OutputMember} (h : MembersOf r owner fields members) :
    ∀ scope ∈ methodScopes [] (objectMethods owner members), Distinct Ident.escaped scope := by
  refine List.forall_mem_cons.mpr ⟨distinct_escaped (Execution.nodup_objectMethods h) ?_, ?_⟩
  · rw [List.nil_append, List.forall_mem_map]
    refine List.forall_mem_append.mpr
      ⟨List.forall_mem_cons.mpr ⟨show Ident.IsOwn initializerName by decide, ?_⟩,
        List.forall_mem_singleton.mpr (show Ident.IsOwn factoryName by decide)⟩
    rw [List.forall_mem_map]
    exact h.isOwn
  · rw [List.forall_mem_map]
    refine List.forall_mem_append.mpr ⟨List.forall_mem_cons.mpr ⟨.nil, ?_⟩,
      List.forall_mem_singleton.mpr ?_⟩
    · rw [List.forall_mem_map]
      exact fun m _ => .nil
    · have hsteps : (factory owner members).localNames = [fieldsParam, objectLocal] := by
        simp [Method.localNames, factory, Stmt.bound?, OutputMember.hydrate]
      rw [hsteps]
      exact distinct_escaped (by decide) (by decide)

theorem outputObject_distinctNames {r : Registry} {ms : List Code.Model} (hms : models r = .ok ms)
    {t : RegisteredType} {interfaces : List String} {fields : List Schema.Field} {m : Code.Model}
    (h : outputObject r t interfaces fields = .ok m) : m.artifact.DistinctNames := by
  obtain ⟨members, conformances, hmem, hconf, rfl⟩ := outputObject_ok h
  refine ⟨List.forall_mem_nil _, List.forall_mem_cons.mpr ⟨?_, List.forall_mem_append.mpr
    ⟨objectMethods_distinct hmem, ?_⟩⟩⟩
  · rw [List.map_map]
    refine distinct_escaped hmem.nodup ?_
    rw [List.forall_mem_map]
    exact hmem.isOwn
  · intro scope hscope
    obtain ⟨c, hc, hscope⟩ := List.mem_flatMap.mp hscope
    obtain ⟨owner, howner, _, hmethods⟩ := conformances_conforming hconf c hc
    -- the interface is generated too, so its fields have claimed distinct names
    obtain ⟨item, _, hemit⟩ := exists_item hms .interface howner
    obtain ⟨found, hfound, _⟩ := interface_accessors hemit
    refine distinct_accessors ?_ (accessors_ok hfound).2.nodup scope hscope
    refine hmethods.imp ?_
    rintro _ f ⟨_, _, _, _, _, _, _, _, rfl⟩
    exact ⟨rfl, rfl⟩

/-! ## Input objects -/

theorem inputObject_distinctNames {r : Registry} {t : RegisteredType} {fields : List Schema.Input}
    {m : Code.Model} (h : inputObject r t fields = .ok m) : m.artifact.DistinctNames := by
  obtain ⟨members, hmem, hartifact⟩ := inputObject_members h
  rw [hartifact]
  have hparam : ∀ member ∈ members, ∃ f : Schema.Input, member.param = memberName f.name := by
    intro member hmember
    obtain ⟨f, _, hfor⟩ := Outcome.mem_of_forall₂ hmem.for_fields member hmember
    exact ⟨f, hfor.param⟩
  refine ⟨List.forall_mem_singleton.mpr ?_, List.forall_mem_cons.mpr ⟨?_, ?_⟩⟩
  · rw [inputClass, List.map_map]
    refine distinct_ofName hmem.constants ?_
    rw [List.forall_mem_map]
    exact fun f _ => Text.not_mem_shoutyCase f.name
  · rw [List.nil_append, inputClass, List.map_cons, List.map_map]
    refine distinct_escaped hmem.setters
      (List.forall_mem_cons.mpr ⟨show Ident.IsOwn "new" by decide, ?_⟩)
    rw [List.forall_mem_map]
    intro member hmember
    obtain ⟨f, hf⟩ := hparam member (List.mem_of_mem_filter hmember)
    change Ident.IsOwn ("with_" ++ member.param)
    rw [hf]
    exact isOwn_with f.name
  · rw [List.forall_mem_map]
    refine List.forall_mem_cons.mpr ⟨?_, ?_⟩
    · have hlocals : (inputConstructor members).localNames = members.map (·.param) := by
        simp [Method.localNames, inputConstructor, Stmt.bound?, InputMember.toParam,
          Function.comp_def]
      rw [hlocals]
      refine distinct_escaped hmem.params ?_
      rw [List.forall_mem_map]
      intro member hmember
      obtain ⟨f, hf⟩ := hparam member hmember
      exact hf ▸ isOwn_memberName f.name
    · rw [List.forall_mem_map]
      intro member _
      exact List.pairwise_singleton ..

/-! ## Selection builders and the service -/

theorem selectionBuilder_distinctNames {r : Registry} {t : RegisteredType} {m : Code.Model}
    (h : selectionBuilder r t = .ok m) : m.artifact.DistinctNames := by
  obtain ⟨members, hmembers, h⟩ := Outcome.bind_ok.mp h
  cases h
  obtain ⟨hemitted, hconstants, hmethods⟩ := selectionMembers_ok hmembers
  have hmember := Outcome.mem_of_forall₂ (hemitted.imp fun _ _ => SelectionMember.for_of_isEmitted)
  refine ⟨List.forall_mem_singleton.mpr ?_, List.forall_mem_cons.mpr ⟨?_, ?_⟩⟩
  · rw [List.map_map]
    refine distinct_ofName hconstants.nodup ?_
    rw [List.forall_mem_map]
    intro member hm
    obtain ⟨f, _, _, _, _, _, _, rfl⟩ := hmember member hm
    exact Text.not_mem_shoutyCase f.name
  · rw [List.map_map]
    have hreserved : (["new", "into_selection"] : List String).Nodup := by decide
    refine distinct_escaped (hmethods.nodup_append hreserved)
      (List.forall_mem_append.mpr ⟨by decide, ?_⟩)
    rw [List.forall_mem_map]
    intro member hm
    obtain ⟨f, _, _, _, _, _, _, rfl⟩ := hmember member hm
    exact isOwn_with f.name
  · rw [List.forall_mem_map, List.forall_mem_map]
    intro member hm
    obtain ⟨f, _, _, _, as, _, hplanned, rfl⟩ := hmember member hm
    exact hplanned.distinct_localNames rfl rfl rfl (by decide) (by decide)

theorem service_distinctNames {r : Registry} {m : Code.Model} (h : service r = .ok m) :
    m.artifact.DistinctNames := by
  obtain ⟨members, hmembers, hartifact⟩ := service_members h
  rw [hartifact]
  have hmember := Outcome.mem_of_forall₂' hmembers.for_operations
  refine ⟨List.forall_mem_nil _, List.forall_mem_cons.mpr ⟨?_, ?_⟩⟩
  · rw [List.map_map]
    refine distinct_escaped hmembers.methods
      (List.forall_mem_cons.mpr ⟨show Ident.IsOwn "new" by decide, List.forall_mem_map.mpr ?_⟩)
    intro member hm
    obtain ⟨o, _, hoperation⟩ := hmember member hm
    obtain ⟨_, _, _, _, _, _, _, rfl⟩ := operationMember_ok hoperation
    exact isOwn_operation o.1 o.2.name
  · rw [List.forall_mem_map, List.forall_mem_map]
    intro member hm
    obtain ⟨o, _, hoperation⟩ := hmember member hm
    obtain ⟨_, _, _, as, _, _, hplanned, rfl⟩ := operationMember_ok hoperation
    exact hplanned.distinct_localNames rfl rfl rfl (by decide) (by decide)

/-! ## All items -/

theorem Emits.distinctNames {r : Registry} {ms : List Code.Model} (hms : models r = .ok ms)
    {part : Part} {m : Code.Model} (h : Emits r part m) : m.artifact.DistinctNames := by
  cases h with
  | customScalar => exact ⟨List.forall_mem_nil _, List.forall_mem_nil _⟩
  | enumeration _ h => exact enumeration_distinctNames h
  | inputObject _ h => exact inputObject_distinctNames h
  | interface _ h => exact interface_distinctNames h
  | outputObject _ h => exact outputObject_distinctNames hms h
  | selectionBuilder _ h => exact selectionBuilder_distinctNames h
  | service h => exact service_distinctNames h

end Client

end Graphwright
