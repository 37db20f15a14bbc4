import Graphwright.Proofs.Client.Members

/-!
# What an emitted output object is made of

Every emitted output object stands for a type that no hand-written item replaces, and has one
member for each field of it, in order and under a name of its own. It conforms to the interfaces of
that type that get an item themselves.
-/
namespace Graphwright.Client

open Code

/-! ## Members -/

/-- The members of an object: one for each field, under names that differ from each other and from
those of the functions that make the object. -/
structure MembersOf (r : Registry) (owner : String) (fields : List Schema.Field)
    (members : List OutputMember) : Prop where
  fields_eq : members.map (·.field) = fields
  nodup : (members.map (·.name)).Nodup
  isEmitted : ∀ m ∈ members, m.IsEmitted r owner
  isFree : ∀ m ∈ members, m.name ≠ initializerName ∧ m.name ≠ factoryName

/-- Two fields of an emitted object with one name are the same field. -/
theorem MembersOf.eq_of_name {r : Registry} {owner : String} {fields : List Schema.Field}
    {members : List OutputMember} (h : MembersOf r owner fields members) {f g : Schema.Field}
    (hf : f ∈ fields) (hg : g ∈ fields) (e : f.name = g.name) : f = g := by
  rw [← h.fields_eq] at hf hg
  obtain ⟨m, hm, rfl⟩ := List.mem_map.mp hf
  obtain ⟨n, hn, rfl⟩ := List.mem_map.mp hg
  have he : m.name = n.name := by
    rw [(h.isEmitted m hm).name_eq, (h.isEmitted n hn).name_eq, e]
  rw [List.inj_on_of_nodup_map h.nodup hm hn he]

/-! ## Conformances -/

theorem conformance_ok {r : Registry} {object interface : String} {own : List Schema.Field}
    {c : Conformance} (h : conformance r object own interface = .ok c)
    (hs : isSubstitutedInterface r interface = false) :
    ∃ t ∈ primary r .interface, t.name = interface ∧ t.generatedPath = c.interface ∧
      conformingMethods r object interface own (Registry.fieldsOf t.definition.shape) =
        .ok c.methods := by
  unfold conformance at h
  dsimp only at h
  split at h
  · cases h
  · rename_i t hf
    split at h
    · rename_i fields hshape
      obtain ⟨methods, hmethods, h⟩ := Outcome.bind_ok.mp h
      cases h
      have hcat : t.category = .interface := by
        rw [RegisteredType.category, Schema.Definition.category, hshape]
        rfl
      have hsub : t.substitution = none := by
        simpa [isSubstitutedInterface, hf, hcat, RegisteredType.isSubstituted] using hs
      obtain ⟨ht, hname⟩ := Registry.mem_of_find? hf
      refine ⟨t, mem_primary.mpr ⟨ht, hcat, ?_⟩, hname, ?_, by rw [hshape]; exact hmethods⟩
      · simp [RegisteredType.isSubstituted, hsub]
      · simp [RegisteredType.artifactPath, hsub]
    · cases h

/-- An object conforms to interfaces that get an item, with one method for each field of theirs. -/
theorem conformances_conforming {r : Registry} {object : String} {interfaces : List String}
    {own : List Schema.Field} {conformances : List Conformance}
    (h : (interfaces.filter (!isSubstitutedInterface r ·)).mapM (conformance r object own)
      = .ok conformances) :
    ∀ c ∈ conformances, ∃ t ∈ primary r .interface, t.generatedPath = c.interface ∧
      List.Forall₂ (IsConforming r own) c.methods (Registry.fieldsOf t.definition.shape) := by
  intro c hc
  obtain ⟨name, hname, hconformance⟩ := (Outcome.mem_mapM h).mp hc
  have hs := (List.mem_filter.mp hname).2
  obtain ⟨t, ht, _, hpath, hmethods⟩ := conformance_ok hconformance (by simpa using hs)
  exact ⟨t, ht, hpath, conformingMethods_ok hmethods⟩

/-! ## Objects -/

def objectMethods (owner : String) (members : List OutputMember) : List Method :=
  initializer members :: members.map (·.getter) ++ [factory owner members]

/-- The item of a type with these members and conformances. -/
def outputModel (t : RegisteredType) (members : List OutputMember)
    (conformances : List Conformance) : Model :=
  primaryModel t
    (.of [.clientError, .decode, .hydrated, .map, .outputObject, .value]
      (members.filterMap (·.path) ++ conformances.map (·.interface)))
    (.outputObject (members.map (·.property)) (objectMethods t.name members) conformances)

theorem outputObject_ok {r : Registry} {t : RegisteredType} {interfaces : List String}
    {fields : List Schema.Field} {m : Model} (h : outputObject r t interfaces fields = .ok m) :
    ∃ members conformances, MembersOf r t.name fields members ∧
      (interfaces.filter (!isSubstitutedInterface r ·)).mapM (conformance r t.name fields)
        = .ok conformances ∧
      m = outputModel t members conformances := by
  obtain ⟨members, hm, h⟩ := Outcome.bind_ok.mp h
  obtain ⟨conformances, hc, h⟩ := Outcome.bind_ok.mp h
  cases h
  obtain ⟨hfields, hemitted, hnames⟩ := outputMembers_ok hm
  refine ⟨members, conformances, ⟨hfields, hnames.nodup, hemitted, fun m hm => ?_⟩, hc, rfl⟩
  simpa [Members.names, Members.withReserved, Entries.names] using
    hnames.fresh m.name (List.mem_map_of_mem hm)

/-- The item `m` is the output object for `t`. -/
def EmittedObject (r : Registry) (t : RegisteredType) (m : Model) : Prop :=
  ∃ members conformances, MembersOf r t.name (Registry.fieldsOf t.definition.shape) members ∧
    ((interfacesOf t.definition.shape).filter (!isSubstitutedInterface r ·)).mapM
      (conformance r t.name (Registry.fieldsOf t.definition.shape)) = .ok conformances ∧
    m = outputModel t members conformances

/-- There is one output object for each object type that is not substituted, in order. -/
theorem outputObjects_ok {r : Registry} {ms : List Model} (h : outputObjects r = .ok ms) :
    List.Forall₂ (EmittedObject r) (primary r .outputObject) ms :=
  (Outcome.mapM_ok.mp h).imp fun _ _ hm => outputObject_ok hm

end Graphwright.Client
