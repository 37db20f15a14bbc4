import Graphwright.Proofs.Client.MemberNames
import Graphwright.Rust.Rendering

/-!
# Names within generated files

The names that generated items claim are the identifiers that stand in their files, next to those of
the functions which every item of a kind has. Main statement: no identifier stands twice in one scope
of a file: among the fields of a record, the variants of an enum, the constants or the functions of
an implementation or an interface, and the parameters and locals of a function.
-/
namespace Graphwright

namespace Rust

/-! ## Scopes -/

/-- The local that a statement introduces. -/
def Stmt.bound? : Stmt → Option Ident
  | bind name _ _ => some name
  | _ => none

/-- The parameters and the locals of a function. -/
def Function.locals (f : Function) : List Ident :=
  f.params.map (·.1) ++ (f.body.getD []).filterMap (·.bound?)

def Member.constant? : Member → Option Ident
  | constant _ name _ => some name
  | function _ => none

def Member.function? : Member → Option Function
  | constant _ _ _ => none
  | function f => some f

/-- The scopes of members: the constants, the functions, and one in each function. -/
def memberScopes (members : List Member) : List (List Ident) :=
  let functions := members.filterMap (·.function?)
  members.filterMap (·.constant?) :: functions.map (·.name) :: functions.map (·.locals)

def Item.scopes : Item → List (List Ident)
  | enumeration _ _ _ variants => [variants.map (·.name)]
  | record _ _ _ _ fields => [fields.map (·.name)]
  | trait _ _ members => memberScopes members
  | implementation _ _ _ members => memberScopes members
  | _ => []

/-- No name stands twice in one scope, raw or not. -/
def AreDistinct (scopes : List (List Ident)) : Prop :=
  ∀ scope ∈ scopes, (scope.map (·.name)).Nodup

instance (scopes : List (List Ident)) : Decidable (AreDistinct scopes) :=
  inferInstanceAs (Decidable (∀ scope ∈ scopes, (scope.map (·.name)).Nodup))

theorem areDistinct_singleton {scope : List Ident} :
    AreDistinct [scope] ↔ (scope.map (·.name)).Nodup :=
  List.forall_mem_singleton

theorem areDistinct_memberScopes {members : List Member} : AreDistinct (memberScopes members) ↔
    ((members.filterMap (·.constant?)).map (·.name)).Nodup ∧
      (((members.filterMap (·.function?)).map (·.name)).map (·.name)).Nodup ∧
      ∀ f ∈ members.filterMap (·.function?), (f.locals.map (·.name)).Nodup := by
  rw [AreDistinct, memberScopes, List.forall_mem_cons, List.forall_mem_cons, List.forall_mem_map]

/-! ## Spelled names -/

/-- Identifiers are the names of a scope, spelled one by one. -/
def Spells (spell : String → Except Failure Ident) (names : List String) (is : List Ident) : Prop :=
  List.Forall₂ (fun name i => spell name = .ok i) names is

theorem Spells.append {spell : String → Except Failure Ident} {names names' : List String}
    {is is' : List Ident} (h : Spells spell names is) (h' : Spells spell names' is') :
    Spells spell (names ++ names') (is ++ is') :=
  List.rel_append h h'

theorem Spells.nodup {spell : String → Except Failure Ident} {names : List String} {is : List Ident}
    (h : Spells spell names is) (hd : Distinct spell names) : (is.map (·.name)).Nodup := by
  induction h with
  | nil => exact .nil
  | cons hi htail ih =>
      rw [Distinct, List.pairwise_cons] at hd
      rw [List.map_cons, List.nodup_cons]
      refine ⟨fun hmem => ?_, ih hd.2⟩
      obtain ⟨j, hj, heq⟩ := List.mem_map.mp hmem
      obtain ⟨name, hname, hspell⟩ := Outcome.mem_of_forall₂' htail j hj
      exact hd.1 name hname _ j hi hspell heq.symm

/-! ## Methods -/

namespace Imports

variable {imports : Imports}

theorem bound_of_stmt {isLast : Bool} {s : Code.Stmt} {s' : Stmt}
    (h : imports.stmt isLast s = .ok s') :
    s.bound? = none ∧ s'.bound? = none ∨
      ∃ name i, s.bound? = some name ∧ s'.bound? = some i ∧ Ident.escaped name = .ok i := by
  cases s with
  | bind name isMutable value =>
      obtain ⟨i, hi, h⟩ := Outcome.bind_ok.mp h
      obtain ⟨_, _, h⟩ := Outcome.bind_ok.mp h
      cases h
      exact Or.inr ⟨name, i, rfl, rfl, hi⟩
  | assign target value =>
      obtain ⟨_, _, h⟩ := Outcome.bind_ok.mp h
      obtain ⟨_, _, h⟩ := Outcome.bind_ok.mp h
      cases h
      exact Or.inl ⟨rfl, rfl⟩
  | insert map key value | insertIfPresent map key param =>
      obtain ⟨_, _, h⟩ := Outcome.bind_ok.mp h
      obtain ⟨_, _, h⟩ := Outcome.bind_ok.mp h
      obtain ⟨_, _, h⟩ := Outcome.bind_ok.mp h
      cases h
      exact Or.inl ⟨rfl, rfl⟩
  | returnSelfIfAbsent param =>
      obtain ⟨_, _, h⟩ := Outcome.bind_ok.mp h
      cases h
      exact Or.inl ⟨rfl, rfl⟩
  | select selection field arguments nested =>
      obtain ⟨_, _, h⟩ := Outcome.bind_ok.mp h
      obtain ⟨_, _, h⟩ := Outcome.bind_ok.mp h
      obtain ⟨_, _, h⟩ := Outcome.bind_ok.mp h
      obtain ⟨_, _, h⟩ := Outcome.bind_ok.mp h
      cases h
      exact Or.inl ⟨rfl, rfl⟩
  | «return» value =>
      obtain ⟨_, _, h⟩ := Outcome.bind_ok.mp h
      cases h
      exact Or.inl ⟨rfl, by cases isLast <;> rfl⟩

theorem bound_of_stmts {body : List Code.Stmt} {ss : List Stmt} (h : imports.stmts body = .ok ss) :
    Spells Ident.escaped (body.filterMap (·.bound?)) (ss.filterMap (·.bound?)) := by
  induction body generalizing ss with
  | nil =>
      cases h
      exact .nil
  | cons s rest ih =>
      obtain ⟨s', hs, h⟩ := Outcome.bind_ok.mp h
      obtain ⟨rest', hrest, h⟩ := Outcome.bind_ok.mp h
      cases h
      rcases bound_of_stmt hs with ⟨hnone, hnone'⟩ | ⟨name, i, hsome, hsome', hi⟩
      · rw [List.filterMap_cons_none hnone, List.filterMap_cons_none hnone']
        exact ih hrest
      · rw [List.filterMap_cons_some hsome, List.filterMap_cons_some hsome']
        exact .cons hi (ih hrest)

/-- A function has the name of a method, and its parameters and locals. A function that is only
declared has no locals. -/
def Renders (m : Code.Method) (f : Function) : Prop :=
  Ident.escaped m.name = .ok f.name ∧
    ∃ names, names.Sublist m.localNames ∧ Spells Ident.escaped names f.locals

theorem Renders.nodup_locals {m : Code.Method} {f : Function} (h : Renders m f)
    (hd : Distinct Ident.escaped m.localNames) : (f.locals.map (·.name)).Nodup := by
  obtain ⟨_, names, hsub, hspells⟩ := h
  exact hspells.nodup (hd.sublist hsub)

theorem renders_of_method {placement : Placement} {m : Code.Method} {member : Member}
    (h : imports.method placement m = .ok member) : ∃ f, member = .function f ∧ Renders m f := by
  obtain ⟨name, hname, h⟩ := Outcome.bind_ok.mp h
  obtain ⟨params, hparams, h⟩ := Outcome.bind_ok.mp h
  obtain ⟨returns, _, h⟩ := Outcome.bind_ok.mp h
  have hspells : Spells Ident.escaped (m.params.map (·.name)) (params.map (·.1)) := by
    have hall := Outcome.mapM_ok.mp hparams
    rw [Spells, List.forall₂_map_left_iff, List.forall₂_map_right_iff]
    refine hall.imp fun param p hp => ?_
    obtain ⟨i, hi, hp⟩ := Outcome.bind_ok.mp hp
    obtain ⟨_, _, hp⟩ := Outcome.bind_ok.mp hp
    cases hp
    exact hi
  dsimp only at h
  split at h
  · cases h
    refine ⟨_, rfl, hname, _, List.sublist_append_left .., ?_⟩
    simpa [Function.locals] using hspells
  · obtain ⟨body, hbody, h⟩ := Outcome.bind_ok.mp h
    obtain ⟨ss, hss, rfl⟩ := Outcome.map_ok.mp hbody
    cases h
    exact ⟨_, rfl, hname, _, List.Sublist.refl _, hspells.append (bound_of_stmts hss)⟩

theorem renders_of_methods {placement : Placement} {ms : List Code.Method} {members : List Member}
    (h : imports.methods placement ms = .ok members) :
    members.filterMap (·.constant?) = [] ∧
      List.Forall₂ Renders ms (members.filterMap (·.function?)) := by
  have hall := Outcome.mapM_ok.mp h
  clear h
  induction hall with
  | nil => exact ⟨rfl, .nil⟩
  | cons hm _ ih =>
      obtain ⟨f, rfl, hf⟩ := renders_of_method hm
      exact ⟨ih.1, .cons hf ih.2⟩

theorem spells_of_renders {ms : List Code.Method} {fs : List Function}
    (h : List.Forall₂ Renders ms fs) :
    Spells Ident.escaped (ms.map (·.name)) (fs.map (·.name)) := by
  rw [Spells, List.forall₂_map_left_iff, List.forall₂_map_right_iff]
  exact h.imp fun _ _ hf => hf.1

theorem spells_constants {cs : List Code.Constant} {members : List Member}
    (h : constants cs = .ok members) :
    members.filterMap (·.function?) = [] ∧
      Spells Ident.ofName (cs.map (·.name)) (members.filterMap (·.constant?)) := by
  have hall := Outcome.mapM_ok.mp h
  clear h
  induction hall with
  | nil => exact ⟨rfl, .nil⟩
  | cons hc _ ih =>
      obtain ⟨i, hi, hc⟩ := Outcome.bind_ok.mp hc
      cases hc
      exact ⟨ih.1, .cons hi ih.2⟩

/-! ## Implementations -/

/-- Members are constants, functions for methods and functions that all items of the kind have, in
some order. -/
theorem areDistinct_members {constants added : List String} {names : List Ident}
    {members : List Member} {functions : List Function} {ms : List Code.Method}
    (hconstants : Spells Ident.ofName constants (members.filterMap (·.constant?)))
    (hdistinct : Distinct Ident.ofName constants) (hadded : Spells Ident.escaped added names)
    (hrenders : List.Forall₂ Renders ms functions)
    (hnames : ((members.filterMap (·.function?)).map (·.name)).Perm
      (names ++ functions.map (·.name)))
    (hlocals : ∀ f ∈ members.filterMap (·.function?), f ∈ functions ∨ (f.locals.map (·.name)).Nodup)
    (hd : ∀ scope ∈ Code.methodScopes added ms, Distinct Ident.escaped scope) :
    AreDistinct (memberScopes members) := by
  obtain ⟨hfunctions, hmethods⟩ := List.forall_mem_cons.mp hd
  rw [areDistinct_memberScopes]
  refine ⟨hconstants.nodup hdistinct, ?_, fun f hf => ?_⟩
  · rw [(hnames.map _).nodup_iff]
    exact (hadded.append (spells_of_renders hrenders)).nodup hfunctions
  · rcases hlocals f hf with hf | hf
    · obtain ⟨m, hm, hf⟩ := Outcome.mem_of_forall₂' hrenders f hf
      exact hf.nodup_locals (hmethods _ (List.mem_map_of_mem hm))
    · exact hf

/-- The members of an interface, or of its implementation. -/
theorem areDistinct_methods {placement : Placement} {ms : List Code.Method} {members : List Member}
    (h : imports.methods placement ms = .ok members)
    (hd : ∀ scope ∈ Code.methodScopes [] ms, Distinct Ident.escaped scope) :
    AreDistinct (memberScopes members) := by
  obtain ⟨hconstants, hrenders⟩ := renders_of_methods h
  exact areDistinct_members (hconstants ▸ .nil) .nil .nil hrenders (.refl _) (fun _ => Or.inl) hd

/-- An accessor of an enum has no parameters and no locals. -/
theorem spells_accessors {values : List Code.EnumValue} {members : List Member}
    (h : (values.mapM fun v => do
      return simpleFunction [] true (← Ident.escaped v.accessor) .none .self
        (.ownPath (← Ident.ofName v.variant))) = Except.ok members) :
    members.filterMap (·.constant?) = [] ∧
      Spells Ident.escaped (values.map (·.accessor))
        ((members.filterMap (·.function?)).map (·.name)) ∧
      ∀ f ∈ members.filterMap (·.function?), f.locals = [] := by
  have hall := Outcome.mapM_ok.mp h
  clear h
  induction hall with
  | nil => exact ⟨rfl, .nil, List.forall_mem_nil _⟩
  | cons hv _ ih =>
      obtain ⟨i, hi, hv⟩ := Outcome.bind_ok.mp hv
      obtain ⟨_, _, hv⟩ := Outcome.bind_ok.mp hv
      cases hv
      exact ⟨ih.1, .cons hi ih.2.1, List.forall_mem_cons.mpr ⟨rfl, ih.2.2⟩⟩

theorem areDistinct_enumerationMembers {values : List Code.EnumValue} {members : List Member}
    (h : enumerationMembers values = .ok members)
    (hconstants : Distinct Ident.ofName (values.map (·.constant)))
    (haccessors : Distinct Ident.escaped ("options" :: values.map (·.accessor))) :
    AreDistinct (memberScopes members) := by
  obtain ⟨constants, hcs, h⟩ := Outcome.bind_ok.mp h
  obtain ⟨accessors, has, h⟩ := Outcome.bind_ok.mp h
  obtain ⟨all, _, h⟩ := Outcome.bind_ok.mp h
  cases h
  obtain ⟨hnone, hspells⟩ := spells_constants hcs
  obtain ⟨hnone', hspells', hlocals⟩ := spells_accessors has
  rw [List.map_map] at hspells
  rw [areDistinct_memberScopes]
  simp only [List.filterMap_append, hnone, hnone', List.append_nil, List.nil_append]
  refine ⟨?_, ?_, List.forall_mem_append.mpr
    ⟨fun f hf => by rw [hlocals f hf]; exact .nil, List.forall_mem_singleton.mpr .nil⟩⟩
  · simpa [simpleFunction, Member.constant?] using hspells.nodup hconstants
  · have hoptions : Ident.escaped "options" = .ok (.plain "options") := by decide +kernel
    have hall : Spells Ident.escaped ("options" :: values.map (·.accessor))
        (.plain "options" :: (accessors.filterMap (·.function?)).map (·.name)) :=
      .cons hoptions hspells'
    rw [List.map_append, (List.perm_append_comm.map _).nodup_iff]
    exact hall.nodup haccessors

/-! ## Items -/

section

variable {item : Code.Model} {name : Ident} {items : List Item}

theorem customScalar_distinct (h : imports.customScalar item name = .ok items) :
    ∀ i ∈ items, AreDistinct i.scopes := by
  obtain ⟨marker, _, h⟩ := Outcome.bind_ok.mp h
  cases h
  simp only [List.forall_mem_cons]
  exact ⟨show AreDistinct [[]] by decide, show AreDistinct [[.plain "NAME"], []] by decide,
    List.forall_mem_nil _, List.forall_mem_nil _⟩

theorem enumeration_distinct {values : List Code.EnumValue}
    (h : imports.enumeration item name values = .ok items)
    (hd : (Code.Artifact.enumeration values).DistinctNames) : ∀ i ∈ items, AreDistinct i.scopes := by
  obtain ⟨variants, hvariants, h⟩ := Outcome.bind_ok.mp h
  obtain ⟨members, hmembers, h⟩ := Outcome.bind_ok.mp h
  obtain ⟨toWire, _, h⟩ := Outcome.bind_ok.mp h
  obtain ⟨fromWire, _, h⟩ := Outcome.bind_ok.mp h
  cases h
  obtain ⟨hconstants, hd'⟩ := List.forall_mem_cons.mp hd.plain
  have hspells : Spells Ident.ofName (values.map (·.variant)) (variants.map (·.name)) := by
    rw [Spells, List.forall₂_map_left_iff, List.forall₂_map_right_iff]
    refine (Outcome.mapM_ok.mp hvariants).imp fun v variant hv => ?_
    obtain ⟨i, hi, hv⟩ := Outcome.bind_ok.mp hv
    cases hv
    exact hi
  simp only [List.forall_mem_cons]
  refine ⟨?_, ?_, ?_, ?_, List.forall_mem_nil _⟩
  · exact areDistinct_singleton.mpr (hspells.nodup (List.forall_mem_singleton.mp hd'))
  · exact areDistinct_enumerationMembers hmembers hconstants
      (List.forall_mem_singleton.mp hd.escaped)
  · show AreDistinct [[.plain "TYPE_NAME"], [.plain "as_str", .plain "from_wire", .plain "options"],
      [], [.plain "value"], []]
    decide
  · show AreDistinct [[], [.plain "to_input_value"], []]
    decide

theorem inputObject_distinct {cls : Code.Class} (h : imports.inputObject item name cls = .ok items)
    (hd : (Code.Artifact.inputObject cls).DistinctNames) : ∀ i ∈ items, AreDistinct i.scopes := by
  obtain ⟨cs, hcs, h⟩ := Outcome.bind_ok.mp h
  obtain ⟨methods, hmethods, h⟩ := Outcome.bind_ok.mp h
  cases h
  obtain ⟨hnone, hspells⟩ := spells_constants hcs
  obtain ⟨hnone', hrenders⟩ := renders_of_methods hmethods
  simp only [List.forall_mem_cons]
  refine ⟨?_, ?_, ?_, List.forall_mem_nil _⟩
  · show AreDistinct [[.plain Code.inputStore]]
    decide
  · refine areDistinct_members ?_ (List.forall_mem_singleton.mp hd.plain) .nil hrenders ?_ ?_
      hd.escaped
    · rw [List.filterMap_append, hnone', List.append_nil]
      exact hspells
    · rw [List.filterMap_append, hnone]
      exact .refl _
    · rw [List.filterMap_append, hnone]
      exact fun _ => Or.inl
  · show AreDistinct [[], [.plain "to_input_value"], []]
    decide

theorem interface_distinct {accessors : List Code.Method}
    (h : imports.interface item name accessors = .ok items)
    (hd : (Code.Artifact.interface accessors).DistinctNames) : ∀ i ∈ items, AreDistinct i.scopes := by
  obtain ⟨members, hmembers, h⟩ := Outcome.bind_ok.mp h
  cases h
  exact List.forall_mem_singleton.mpr (areDistinct_methods hmembers hd.escaped)

theorem outputObject_distinct {properties : List Code.Property} {methods : List Code.Method}
    {conformances : List Code.Conformance}
    (h : imports.outputObject item name properties methods conformances = .ok items)
    (hd : (Code.Artifact.outputObject properties methods conformances).DistinctNames) :
    ∀ i ∈ items, AreDistinct i.scopes := by
  obtain ⟨fields, hfields, h⟩ := Outcome.bind_ok.mp h
  obtain ⟨inherent, hinherent, h⟩ := Outcome.bind_ok.mp h
  obtain ⟨implementations, himplementations, h⟩ := Outcome.bind_ok.mp h
  cases h
  obtain ⟨hproperties, hd'⟩ := List.forall_mem_cons.mp hd.escaped
  obtain ⟨hmethods, hconformances⟩ := List.forall_mem_append.mp hd'
  have hspells : Spells Ident.escaped (properties.map (·.name)) (fields.map (·.name)) := by
    rw [Spells, List.forall₂_map_left_iff, List.forall₂_map_right_iff]
    refine (Outcome.mapM_ok.mp hfields).imp fun p field hp => ?_
    obtain ⟨i, hi, hp⟩ := Outcome.bind_ok.mp hp
    obtain ⟨_, _, hp⟩ := Outcome.bind_ok.mp hp
    cases hp
    exact hi
  refine List.forall_mem_append.mpr ⟨?_, fun i hi => ?_⟩
  · simp only [List.forall_mem_cons]
    refine ⟨?_, ?_, ?_, List.forall_mem_nil _⟩
    · exact areDistinct_singleton.mpr (hspells.nodup hproperties)
    · exact areDistinct_methods hinherent hmethods
    · show AreDistinct [[.plain "TYPE_NAME"], [.plain "from_map"], [.plain "fields"]]
      decide
  · obtain ⟨c, hc, himplementation⟩ := (Outcome.mem_mapM himplementations).mp hi
    obtain ⟨_, _, himplementation⟩ := Outcome.bind_ok.mp himplementation
    obtain ⟨members, hmembers, himplementation⟩ := Outcome.bind_ok.mp himplementation
    cases himplementation
    exact areDistinct_methods hmembers fun scope hscope =>
      hconformances scope (List.mem_flatMap.mpr ⟨c, hc, hscope⟩)

theorem fieldSelection_distinct {cls : Code.Class}
    (h : imports.fieldSelection item name cls = .ok items)
    (hd : (Code.Artifact.fieldSelection cls).DistinctNames) : ∀ i ∈ items, AreDistinct i.scopes := by
  obtain ⟨cs, hcs, h⟩ := Outcome.bind_ok.mp h
  obtain ⟨methods, hmethods, h⟩ := Outcome.bind_ok.mp h
  cases h
  obtain ⟨hnone, hspells⟩ := spells_constants hcs
  obtain ⟨hnone', hrenders⟩ := renders_of_methods hmethods
  simp only [List.forall_mem_cons]
  refine ⟨?_, ?_, List.forall_mem_nil _⟩
  · show AreDistinct [[.plain Code.selectionStore]]
    decide
  · have hadded : Spells Ident.escaped ["new", "into_selection"]
        [.plain "new", .plain "into_selection"] :=
      .cons (by decide +kernel) (.cons (by decide +kernel) .nil)
    refine areDistinct_members ?_ (List.forall_mem_singleton.mp hd.plain) hadded hrenders ?_ ?_
      hd.escaped
    · simp only [List.filterMap_append, hnone']
      simpa [simpleFunction, Member.constant?] using hspells
    · simp only [List.filterMap_append, hnone, List.map_append]
      exact .cons _ (List.perm_append_singleton _ _)
    · simp only [List.filterMap_append, hnone, List.forall_mem_append]
      exact ⟨⟨⟨List.forall_mem_nil _, List.forall_mem_singleton.mpr (Or.inr .nil)⟩,
        fun _ => Or.inl⟩, List.forall_mem_singleton.mpr (Or.inr .nil)⟩

theorem service_distinct {cls : Code.Class} (h : imports.service item name cls = .ok items)
    (hd : (Code.Artifact.service cls).DistinctNames) : ∀ i ∈ items, AreDistinct i.scopes := by
  obtain ⟨methods, hmethods, h⟩ := Outcome.bind_ok.mp h
  cases h
  obtain ⟨hnone, hrenders⟩ := renders_of_methods hmethods
  simp only [List.forall_mem_cons]
  refine ⟨?_, ?_, List.forall_mem_nil _⟩
  · show AreDistinct [[.plain Code.transportStore]]
    decide
  · have hadded : Spells Ident.escaped ["new"] [.plain "new"] := .cons (by decide +kernel) .nil
    exact areDistinct_members (hnone ▸ .nil) .nil hadded hrenders (.refl _)
      (List.forall_mem_cons.mpr ⟨Or.inr (List.nodup_singleton _), fun _ => Or.inl⟩) hd.escaped

theorem declarations_distinct (h : imports.declarations item = .ok items)
    (hd : item.artifact.DistinctNames) : ∀ i ∈ items, AreDistinct i.scopes := by
  obtain ⟨name, _, h⟩ := Outcome.bind_ok.mp h
  split at h <;> rename_i ha <;> rw [ha] at hd
  · exact customScalar_distinct h
  · exact enumeration_distinct h hd
  · exact inputObject_distinct h hd
  · exact outputObject_distinct h hd
  · exact interface_distinct h hd
  · exact fieldSelection_distinct h hd
  · exact service_distinct h hd

end

end Imports

/-- In every item of a client the names of each scope are spelled as distinct identifiers, and where
the item is written, with whatever imports, no scope of what is written holds a name twice. -/
theorem models_distinctNames {r : Registry} {ms : List Code.Model} (h : Client.models r = .ok ms) :
    ∀ m ∈ ms, m.artifact.DistinctNames ∧
      ∀ (imports : Imports) (items : List Item), imports.declarations m = .ok items →
        ∀ i ∈ items, AreDistinct i.scopes := by
  intro m hm
  obtain ⟨part, hemits⟩ := (Client.mem_models h).mp hm
  have hd := hemits.distinctNames h
  exact ⟨hd, fun _ _ hitems => Imports.declarations_distinct hitems hd⟩

/-- A schema whose names are keywords, and names that the methods of a client give to their
locals. -/
def keywords : String :=
  "enum Kind \x7b TYPE \x7d input Filter \x7b new: Int type: Kind \x7d " ++
    "type User \x7b self: Kind fields(selection: Int): User \x7d " ++
    "type Query \x7b user(selection: Int, request: Filter): User \x7d"

theorem models_distinctNames_keywords : ∃ r warnings ms,
    registryOfText .default [] keywords = .ok (r, warnings) ∧ Client.models r = .ok ms ∧
    (∀ m ∈ ms, (itemFile .default m).isOk = true) ∧
    ∀ m ∈ ms, m.artifact.DistinctNames ∧
      ∀ (imports : Imports) (items : List Item), imports.declarations m = .ok items →
        ∀ i ∈ items, AreDistinct i.scopes := by
  have hrun : Outcome.any (registryOfText .default [] keywords) (fun out =>
      Outcome.any (Client.models out.1) fun ms =>
        ∀ m ∈ ms, (itemFile .default m).isOk = true) = true := by
    decide +kernel
  obtain ⟨⟨r, warnings⟩, hr, hrun⟩ := Outcome.any_eq_true.mp hrun
  obtain ⟨ms, hms, hfiles⟩ := Outcome.any_eq_true.mp hrun
  exact ⟨r, warnings, ms, hr, hms, of_decide_eq_true hfiles, models_distinctNames hms⟩

end Rust

end Graphwright
