import Graphwright.Client.Basic
import Graphwright.Proofs.Registry.Resolution

/-!
# What the generators emit

Each generator emits one item for each of its types, and the last of them one for all operations.
The items of a client are those that some generator emits, and nothing else. Items for types stand in
a module of their own, under the names of the types; selection builders and the service do not.
-/
namespace Graphwright.Client

open Code

/-- A generator emits an item. -/
inductive Emits (r : Registry) : Part → Model → Prop
  | customScalar {t} (ht : t ∈ primary r .customScalar) :
      Emits r .customScalar (primaryModel t (.of [.scalar, .scalarTag] []) .customScalar)
  | enumeration {t m} (ht : t ∈ primary r .enumeration)
      (h : Client.enumeration t (valuesOf t.definition.shape) = .ok m) : Emits r .enumeration m
  | inputObject {t m} (ht : t ∈ primary r .inputObject)
      (h : Client.inputObject r t (inputsOf t.definition.shape) = .ok m) : Emits r .inputObject m
  | interface {t m} (ht : t ∈ primary r .interface)
      (h : Client.interface r t (Registry.fieldsOf t.definition.shape) = .ok m) :
      Emits r .interface m
  | outputObject {t m} (ht : t ∈ primary r .outputObject)
      (h : Client.outputObject r t (interfacesOf t.definition.shape)
        (Registry.fieldsOf t.definition.shape) = .ok m) : Emits r .outputObject m
  | selectionBuilder {t m} (ht : t ∈ selectable r) (h : Client.selectionBuilder r t = .ok m) :
      Emits r .selectionBuilder m
  | service {m} (h : Client.service r = .ok m) : Emits r .service m

theorem mem_selectable {r : Registry} {t : RegisteredType} :
    t ∈ selectable r ↔ t ∈ r.types ∧
      (t.category = .outputObject ∨ t.category = .interface ∧ t.isSubstituted = true) := by
  simp only [selectable, Registry.ofCategory, List.mem_append, List.mem_filter, decide_eq_true_eq]
  grind

/-! ## One item for each type -/

namespace Part

/-- The types that a generator emits an item for. The service is for no type of its own. -/
def subjects (r : Registry) : Part → List RegisteredType
  | customScalar => primary r .customScalar
  | enumeration => primary r .enumeration
  | inputObject => primary r .inputObject
  | interface => primary r .interface
  | outputObject => primary r .outputObject
  | selectionBuilder => selectable r
  | service => []

/-- The item that a generator emits for one of its types. -/
def emit (r : Registry) (t : RegisteredType) : Part → Except Failure Model
  | customScalar => .ok (primaryModel t (.of [.scalar, .scalarTag] []) .customScalar)
  | enumeration => Client.enumeration t (valuesOf t.definition.shape)
  | inputObject => Client.inputObject r t (inputsOf t.definition.shape)
  | interface => Client.interface r t (Registry.fieldsOf t.definition.shape)
  | outputObject => Client.outputObject r t (interfacesOf t.definition.shape)
      (Registry.fieldsOf t.definition.shape)
  | selectionBuilder => Client.selectionBuilder r t
  | service => Client.service r

theorem models_eq_mapM (r : Registry) {part : Part} (h : part ≠ .service) :
    part.models r = (part.subjects r).mapM fun t => part.emit r t := by
  cases part with
  | customScalar => exact (List.mapM_pure (m := Except Failure)).symm
  | service => exact absurd rfl h
  | _ => rfl

/-- What a generator emits for a type: the item for it, or its selection builder. -/
inductive Item (t : RegisteredType) : Part → Model → Prop
  | customScalar {dependencies} : Item t customScalar (primaryModel t dependencies .customScalar)
  | enumeration {dependencies values} :
      Item t enumeration (primaryModel t dependencies (.enumeration values))
  | inputObject {dependencies cls} :
      Item t inputObject (primaryModel t dependencies (.inputObject cls))
  | interface {dependencies accessors} :
      Item t interface (primaryModel t dependencies (.interface accessors))
  | outputObject {dependencies properties methods conformances} :
      Item t outputObject
        (primaryModel t dependencies (.outputObject properties methods conformances))
  | selectionBuilder {docs dependencies cls} :
      Item t selectionBuilder
        ⟨[], builderName t.name, t.name, docs, dependencies, .fieldSelection cls⟩

section

variable {r : Registry} {part : Part} {t : RegisteredType} {m : Model}

theorem item_of_emit (h : part.emit r t = .ok m) (hservice : part ≠ .service) : part.Item t m := by
  cases part with
  | customScalar =>
      cases h
      exact .customScalar
  | enumeration =>
      obtain ⟨_, _, h⟩ := Outcome.bind_ok.mp h
      cases h
      exact .enumeration
  | inputObject =>
      obtain ⟨_, _, h⟩ := Outcome.bind_ok.mp h
      obtain ⟨_, _, h⟩ := Outcome.bind_ok.mp h
      cases h
      exact .inputObject
  | interface =>
      obtain ⟨_, _, h⟩ := Outcome.bind_ok.mp h
      cases h
      exact .interface
  | outputObject =>
      obtain ⟨_, _, h⟩ := Outcome.bind_ok.mp h
      obtain ⟨_, _, h⟩ := Outcome.bind_ok.mp h
      cases h
      exact .outputObject
  | selectionBuilder =>
      obtain ⟨_, _, h⟩ := Outcome.bind_ok.mp h
      cases h
      exact .selectionBuilder
  | service => exact absurd rfl hservice

theorem Item.eq_primaryModel (h : part.Item t m) (hbuilder : part ≠ .selectionBuilder) :
    ∃ dependencies artifact, m = primaryModel t dependencies artifact := by
  cases h with
  | selectionBuilder => exact absurd rfl hbuilder
  | _ => exact ⟨_, _, rfl⟩

end

end Part

theorem service_placed {r : Registry} {m : Model} (h : service r = .ok m) :
    m.name = r.home.serviceName ∧ m.folder = [] ∧ ∃ cls, m.artifact = .service cls := by
  obtain ⟨_, _, h⟩ := Outcome.bind_ok.mp h
  cases h
  exact ⟨rfl, rfl, _, rfl⟩

/-- A generator emits an item for one of its types, and the last of them the service. -/
theorem emits_iff {r : Registry} {part : Part} {m : Model} : Emits r part m ↔
    (∃ t ∈ part.subjects r, part.emit r t = .ok m) ∨ part = .service ∧ service r = .ok m := by
  constructor
  · intro h
    cases h with
    | customScalar ht => exact .inl ⟨_, ht, rfl⟩
    | enumeration ht h | inputObject ht h | interface ht h | outputObject ht h
    | selectionBuilder ht h => exact .inl ⟨_, ht, h⟩
    | service h => exact .inr ⟨rfl, h⟩
  · rintro (⟨t, ht, h⟩ | ⟨rfl, h⟩)
    · cases part with
      | customScalar =>
          cases h
          exact .customScalar ht
      | enumeration => exact .enumeration ht h
      | inputObject => exact .inputObject ht h
      | interface => exact .interface ht h
      | outputObject => exact .outputObject ht h
      | selectionBuilder => exact .selectionBuilder ht h
      | service => cases ht
    · exact .service h

theorem Emits.item {r : Registry} {part : Part} {m : Model} (h : Emits r part m)
    (hservice : part ≠ .service) : ∃ t ∈ part.subjects r, part.Item t m := by
  rcases emits_iff.mp h with ⟨t, ht, hemit⟩ | ⟨hpart, _⟩
  · exact ⟨t, ht, Part.item_of_emit hemit hservice⟩
  · exact absurd hpart hservice

/-! ## Selected types -/

/-- The type whose fields are to be selected wherever a value of the given type is asked for: an
output object, or an interface that a hand-written item replaces. -/
def selected? (r : Registry) (type : Schema.TypeRef) : Option RegisteredType :=
  (selectable r).find? (·.name = type.baseName)

theorem selected?_eq_some {home : Namespace} {r : Registry} (hr : r.WellFormed home)
    {type : Schema.TypeRef} {t : RegisteredType} :
    selected? r type = some t ↔ t ∈ selectable r ∧ t.name = type.baseName := by
  constructor
  · intro h
    exact ⟨List.mem_of_find?_eq_some h, by simpa using List.find?_some h⟩
  · rintro ⟨ht, hname⟩
    cases h : selected? r type with
    | none => simpa [hname] using List.find?_eq_none.mp h t ht
    | some t' =>
        have ht' := List.mem_of_find?_eq_some h
        have hname' : t'.name = type.baseName := by simpa using List.find?_some h
        rw [List.inj_on_of_nodup_map hr.nodup (mem_selectable.mp ht').1 (mem_selectable.mp ht).1
          (hname'.trans hname.symm)]

/-- A field takes a selection exactly if its type has fields to select. -/
theorem selectedObject?_eq {home : Namespace} {r : Registry} (hr : r.WellFormed home)
    {type : Schema.TypeRef} {context : String} {resolved : ResolvedType}
    (h : resolveConcrete r type context = .ok resolved) :
    selectedObject? resolved = (selected? r type).map (·.name) := by
  obtain ⟨hresolve, hbase⟩ := resolveConcrete_ok.mp h
  have htarget := Registry.resolve_base hresolve
  have hnone : (∀ t ∈ selectable r, t.name ≠ type.baseName) → selected? r type = none :=
    fun hne => List.find?_eq_none.mpr fun t ht => by simpa using hne t ht
  unfold selectedObject?
  cases hb : resolved.base with
  | builtin p =>
      rw [hb] at htarget
      have hp := Registry.target?_eq_builtin htarget
      rw [hnone fun t ht hname => ?_]
      · rfl
      · rw [← hname, hr.notBuiltin t (mem_selectable.mp ht).1] at hp
        cases hp
  | registered name category path =>
      rw [hb] at htarget hbase
      obtain ⟨rfl, t, hfind, rfl, rfl⟩ := Registry.target?_eq_registered htarget
      obtain ⟨t', hfind', _, _, hconcrete⟩ := hbase
      cases hfind.symm.trans hfind'
      obtain ⟨ht, hname⟩ := Registry.mem_of_find? hfind
      have hothers : t ∉ selectable r → selected? r type = none := fun hns =>
        hnone fun t' ht' hname' => hns (by
          rwa [List.inj_on_of_nodup_map hr.nodup ht (mem_selectable.mp ht').1
            (hname.trans hname'.symm)])
      cases hc : t.category with
      | outputObject =>
          rw [(selected?_eq_some hr).mpr ⟨mem_selectable.mpr ⟨ht, Or.inl hc⟩, hname⟩]
          simp [hname]
      | interface =>
          have hs := hconcrete.2 hc
          rw [(selected?_eq_some hr).mpr ⟨mem_selectable.mpr ⟨ht, Or.inr ⟨hc, hs⟩⟩, hname⟩]
          simp [hname]
      | _ => rw [hothers fun hs => by simp [mem_selectable, hc] at hs]; rfl

/-! ## Items -/

/-- An item for a type, which stands in the module of the types. -/
structure IsPrimary (r : Registry) (m : Model) : Prop where
  folder : m.folder = [typesFolder]
  name : ∃ t ∈ r.types, m.name = Text.capitalize t.name
  not_service : ∀ cls, m.artifact ≠ .service cls

theorem isPrimary_primaryModel {r : Registry} {category : Schema.Category} {t : RegisteredType}
    (ht : t ∈ primary r category) {dependencies : Dependencies} {artifact : Artifact}
    (hs : ∀ cls, artifact ≠ .service cls) :
    IsPrimary r (primaryModel t dependencies artifact) :=
  ⟨rfl, ⟨t, (mem_primary.mp ht).1, rfl⟩, hs⟩

/-- Besides items for types there are selection builders and the service. -/
theorem Emits.placed {r : Registry} {part : Part} {m : Model} (h : Emits r part m) :
    IsPrimary r m ∨
      ((∃ t ∈ r.types, m.name = builderName t.name) ∧ m.folder = [] ∧
        ∃ cls, m.artifact = .fieldSelection cls) ∨
      (m.name = r.home.serviceName ∧ m.folder = [] ∧ ∃ cls, m.artifact = .service cls) := by
  by_cases hpart : part = .service
  · subst hpart
    cases h with
    | service h => exact .inr (.inr (service_placed h))
  · obtain ⟨t, ht, hitem⟩ := h.item hpart
    cases hitem with
    | selectionBuilder =>
        exact .inr (.inl ⟨⟨t, (mem_selectable.mp ht).1, rfl⟩, rfl, _, rfl⟩)
    | _ => exact .inl (isPrimary_primaryModel ht (by simp))

/-- The generator whose items have such content. -/
def partOf : Artifact → Part
  | .customScalar => .customScalar
  | .enumeration _ => .enumeration
  | .inputObject _ => .inputObject
  | .outputObject _ _ _ => .outputObject
  | .interface _ => .interface
  | .fieldSelection _ => .selectionBuilder
  | .service _ => .service

/-- The content of an item tells which generator it comes from. -/
theorem Emits.part_eq {r : Registry} {part : Part} {m : Model} (h : Emits r part m) :
    part = partOf m.artifact := by
  by_cases hpart : part = .service
  · subst hpart
    cases h with
    | service h =>
        obtain ⟨_, _, cls, hartifact⟩ := service_placed h
        rw [hartifact]
        rfl
  · obtain ⟨t, _, hitem⟩ := h.item hpart
    cases hitem <;> rfl

theorem Emits.exists_selectionBuilder {r : Registry} {part : Part} {m : Model} (h : Emits r part m)
    {cls : Code.Class} (ha : m.artifact = .fieldSelection cls) :
    ∃ t ∈ selectable r, Client.selectionBuilder r t = .ok m := by
  have hpart := h.part_eq
  rw [ha, partOf] at hpart
  subst hpart
  cases h with
  | selectionBuilder ht h => exact ⟨_, ht, h⟩

theorem Part.mem_models {r : Registry} {part : Part} {items : List Model}
    (h : part.models r = .ok items) {m : Model} : m ∈ items ↔ Emits r part m := by
  rw [emits_iff]
  by_cases hpart : part = .service
  · subst hpart
    obtain ⟨item, hitem, h⟩ := Outcome.bind_ok.mp h
    cases h
    rw [List.mem_singleton]
    constructor
    · rintro rfl
      exact .inr ⟨rfl, hitem⟩
    · rintro (⟨_, ht, _⟩ | ⟨_, h⟩)
      · cases ht
      · exact Except.ok.inj (h.symm.trans hitem)
  · rw [part.models_eq_mapM r hpart] at h
    rw [Outcome.mem_mapM h, or_iff_left fun hservice => hpart hservice.1]

/-- Every kind of item has been generated. -/
theorem exists_items {r : Registry} {ms : List Model} (h : models r = .ok ms) (part : Part) :
    ∃ items, part.models r = .ok items ∧ ∀ m ∈ items, m ∈ ms := by
  obtain ⟨lists, hlists, h⟩ := Outcome.bind_ok.mp h
  cases h
  have hpart : part ∈ Part.all := by cases part <;> decide
  obtain ⟨items, hmem, hitems⟩ := Outcome.exists_of_mapM hlists hpart
  exact ⟨items, hitems, fun m hm => List.mem_flatten.mpr ⟨items, hmem, hm⟩⟩

/-- Every type of a generator has got its item. -/
theorem exists_item {r : Registry} {ms : List Model} (h : models r = .ok ms) (part : Part)
    {t : RegisteredType} (ht : t ∈ part.subjects r) : ∃ m ∈ ms, part.emit r t = .ok m := by
  have hpart : part ≠ .service := by
    rintro rfl
    cases ht
  obtain ⟨items, hitems, hsub⟩ := exists_items h part
  rw [part.models_eq_mapM r hpart] at hitems
  obtain ⟨m, hm, hemit⟩ := Outcome.exists_of_mapM hitems ht
  exact ⟨m, hsub m hm, hemit⟩

theorem exists_service {r : Registry} {ms : List Model} (h : models r = .ok ms) :
    ∃ m ∈ ms, service r = .ok m := by
  obtain ⟨items, hitems, hsub⟩ := exists_items h .service
  obtain ⟨m, hm, hitems⟩ := Outcome.bind_ok.mp hitems
  cases hitems
  exact ⟨m, hsub m List.mem_cons_self, hm⟩

theorem mem_models {r : Registry} {ms : List Model} (h : models r = .ok ms) {m : Model} :
    m ∈ ms ↔ ∃ part, Emits r part m := by
  constructor
  · intro hm
    obtain ⟨lists, hlists, h⟩ := Outcome.bind_ok.mp h
    cases h
    obtain ⟨items, hitems, hm⟩ := List.mem_flatten.mp hm
    obtain ⟨part, _, hpart⟩ := (Outcome.mem_mapM hlists).mp hitems
    exact ⟨part, (Part.mem_models hpart).mp hm⟩
  · rintro ⟨part, hm⟩
    obtain ⟨items, hitems, hsub⟩ := exists_items h part
    exact hsub m ((Part.mem_models hitems).mpr hm)

/-! ## All items of a client -/

/-- The types that get items, kind by kind. -/
def emissions (r : Registry) : List (Part × RegisteredType) :=
  Part.all.flatMap fun part => (part.subjects r).map (part, ·)

/-- A client is an item for each type of each kind, and the service. -/
theorem models_eq (r : Registry) : models r = do
    let items ← (emissions r).mapM fun e => e.1.emit r e.2
    return items ++ [← service r] := by
  have hpart : ∀ part : Part, part ≠ .service → part.models r =
      ((part.subjects r).map (part, ·)).mapM fun e => e.1.emit r e.2 := by
    intro part h
    rw [List.mapM_map, part.models_eq_mapM r h]
    rfl
  have hservice : Part.models r .service = (service r).map ([·]) := by
    rw [Part.models]
    cases service r <;> rfl
  simp only [models, emissions, Part.all, List.flatMap_cons, List.flatMap_nil, List.mapM_append,
    List.mapM_cons, List.mapM_nil, hservice, ← hpart, ne_eq, reduceCtorEq, not_false_eq_true,
    Outcome.bind_map, bind_assoc, pure_bind]
  simp [Part.subjects]

end Graphwright.Client
