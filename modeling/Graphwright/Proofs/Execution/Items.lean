import Graphwright.Proofs.Client.Enumeration
import Graphwright.Proofs.Client.References
import Graphwright.Proofs.Execution.Agreement

/-!
# The items of a client as a program

The items that are generated for a registry are those of its types: at the path of an enum there are
its values, and at the path of an object there is a factory with a step for each field. For this,
items of types must not share a path; the check for file collisions sees to that.
-/
namespace Graphwright.Execution

open Code (Model Method Stmt Expr)
open Client (OutputMember MembersOf)

/-! ## Factories -/

theorem unsetSlots?_map (members : List OutputMember) :
    unsetSlots? (members.map fun m => (m.name, .unset)) = some (members.map (·.name)) := by
  induction members with
  | nil => rfl
  | cons m members ih => simp [unsetSlots?, ih]

theorem steps?_hydrate (members : List OutputMember) :
    steps? Client.objectLocal Client.fieldsParam
        (members.map (·.hydrate) ++ [.return (.success (.var Client.objectLocal))]) =
      some (Factory.ofMembers members).steps := by
  induction members with
  | nil => rfl
  | cons m members ih =>
      rw [List.map_cons, List.cons_append, OutputMember.hydrate, steps?, if_pos ⟨rfl, rfl⟩, ih]
      rfl

/-- The factory of an emitted object does what its members say. -/
theorem Factory.ofMethods?_emitted {r : Registry} {owner : String} {fields : List Schema.Field}
    {members : List OutputMember} (h : MembersOf r owner fields members) :
    Factory.ofMethods? (Client.objectMethods owner members) = some (.ofMembers members) := by
  have hfactory : (Client.objectMethods owner members).find? (·.name = Client.factoryName)
      = some (Client.factory owner members) := by
    have hgetters : (members.map (·.getter)).find? (·.name = Client.factoryName) = none := by
      rw [List.find?_eq_none]
      intro method hmethod
      obtain ⟨m, hm, rfl⟩ := List.mem_map.mp hmethod
      rw [decide_eq_true_eq]
      exact (h.isFree m hm).2
    have hinitializer : Client.initializerName ≠ Client.factoryName := by decide
    rw [Client.objectMethods, List.find?_append,
      List.find?_cons_of_neg (by rw [decide_eq_true_eq]; exact hinitializer), hgetters]
    simp [Client.factory]
  have hmade : madeSlots? (Client.objectMethods owner members) Client.initializerName
      = some (members.map (·.name)) := by
    simp [madeSlots?, Client.objectMethods, Client.initializer, unsetSlots?_map]
  have hbody : (Client.factory owner members).body =
      .bind Client.objectLocal (members ≠ []) (.associatedCall Client.initializerName [])
        :: (members.map (·.hydrate) ++ [.return (.success (.var Client.objectLocal))]) := rfl
  have hparams : (Client.factory owner members).params
      = [⟨Client.fieldsParam, .responseMap⟩] := rfl
  rw [Factory.ofMethods?, hfactory]
  simp only [Option.bind_eq_bind, Option.bind_some]
  rw [hbody, hparams]
  simp only [hmade, steps?_hydrate, Option.bind_some]
  rfl

/-! ## Paths -/

/-- Items of types are the only ones below the module of the types. -/
theorem folder_of_emits {r : Registry} {part : Client.Part} {m : Model}
    (h : Client.Emits r part m) :
    m.folder = [Client.typesFolder] ∨ (∃ cls, m.artifact = .fieldSelection cls) ∨
      ∃ cls, m.artifact = .service cls := by
  rcases h.placed with h | ⟨_, _, h⟩ | ⟨_, _, h⟩
  · exact Or.inl h.folder
  · exact Or.inr (Or.inl h)
  · exact Or.inr (Or.inr h)

theorem itemPath_of_folder {home : Namespace} {m : Model} (h : m.folder = [Client.typesFolder]) :
    Rust.itemPath home m = home.root ++ "::" ++ Client.typesFolder ++ "::" ++ m.name := by
  rw [Rust.itemPath, h]
  rfl

/-- Items whose files differ differ in their paths, too. -/
theorem eq_of_itemPath {home : Namespace} {ms : List Model}
    (hfiles : ∀ m ∈ ms, ∀ m' ∈ ms, Rust.itemFilePath m = Rust.itemFilePath m' → m = m')
    {m m' : Model} (hm : m ∈ ms) (hm' : m' ∈ ms) (hf : m.folder = [Client.typesFolder])
    (hf' : m'.folder = [Client.typesFolder])
    (h : Rust.itemPath home m = Rust.itemPath home m') : m = m' := by
  rw [itemPath_of_folder hf, itemPath_of_folder hf'] at h
  have hname : m.name = m'.name := by simpa using h
  apply hfiles m hm m' hm'
  rw [Rust.itemFilePath, Rust.itemFilePath, hf, hf', hname]

theorem findSome?_of_unique {α β : Type} {l : List α} {f : α → Option β} {a : α} {b : β}
    (ha : a ∈ l) (hf : f a = some b) (hunique : ∀ a' ∈ l, ∀ b', f a' = some b' → a' = a) :
    l.findSome? f = some b := by
  cases h : l.findSome? f with
  | none =>
      have hno := List.findSome?_eq_none_iff.mp h a ha
      rw [hf] at hno
      cases hno
  | some c =>
      obtain ⟨a', ha', hc⟩ := List.exists_of_findSome?_eq_some h
      cases hunique a' ha' c hc
      exact hc.symm.trans hf

/-! ## Types -/

theorem enumeration_emitted {t : RegisteredType} {values : List Schema.EnumValue} {m : Model}
    (h : Client.enumeration t values = .ok m) :
    ∃ dependencies found, m = Client.primaryModel t dependencies (.enumeration found) ∧
      found.map (·.wireName) = values.map (·.name) := by
  obtain ⟨dependencies, e, _⟩ := Client.enumeration_ok h
  refine ⟨dependencies, _, e, ?_⟩
  rw [List.map_map]
  rfl

section Implements

variable {home : Namespace} {r : Registry} {ms : List Model}

/-- No other item for a type has the path of one. -/
theorem eq_of_typePath (h : Client.models r = .ok ms)
    (hfiles : ∀ m ∈ ms, ∀ m' ∈ ms, Rust.itemFilePath m = Rust.itemFilePath m' → m = m')
    {t : RegisteredType} {dependencies : Code.Dependencies} {artifact : Code.Artifact}
    (hm : Client.primaryModel t dependencies artifact ∈ ms) {m' : Model} (hm' : m' ∈ ms)
    (hbuilder : ∀ cls, m'.artifact ≠ .fieldSelection cls)
    (hservice : ∀ cls, m'.artifact ≠ .service cls)
    (hpath : Rust.itemPath home m' = home.typePath t.name) :
    m' = Client.primaryModel t dependencies artifact := by
  obtain ⟨part, hemits⟩ := (Client.mem_models h).mp hm'
  rcases folder_of_emits hemits with hfolder | ⟨cls, e⟩ | ⟨cls, e⟩
  · exact eq_of_itemPath hfiles hm' hm hfolder rfl hpath
  · exact absurd e (hbuilder cls)
  · exact absurd e (hservice cls)

theorem values?_of_mem (h : Client.models r = .ok ms)
    (hfiles : ∀ m ∈ ms, ∀ m' ∈ ms, Rust.itemFilePath m = Rust.itemFilePath m' → m = m')
    {t : RegisteredType} {dependencies : Code.Dependencies} {found : List Code.EnumValue}
    (hm : Client.primaryModel t dependencies (.enumeration found) ∈ ms) :
    Program.values? ⟨home, ms⟩ (home.typePath t.name) = some found := by
  refine findSome?_of_unique hm ?_ ?_
  · rw [Client.itemPath_primaryModel]
    simp [Client.primaryModel]
  · intro m' hm' found' hf
    split at hf
    · rename_i values hartifact
      split at hf
      · rename_i hpath
        exact eq_of_typePath h hfiles hm hm' (by simp [hartifact]) (by simp [hartifact]) hpath
      · cases hf
    · cases hf

theorem factory?_of_mem (h : Client.models r = .ok ms)
    (hfiles : ∀ m ∈ ms, ∀ m' ∈ ms, Rust.itemFilePath m = Rust.itemFilePath m' → m = m')
    {t : RegisteredType} {fields : List Schema.Field} {members : List OutputMember}
    {conformances : List Code.Conformance} (hmem : MembersOf r t.name fields members)
    (hm : Client.outputModel t members conformances ∈ ms) :
    Program.factory? ⟨home, ms⟩ (home.typePath t.name) = some (.ofMembers members) := by
  refine findSome?_of_unique hm ?_ ?_
  · rw [Client.outputModel, Client.itemPath_primaryModel]
    simpa [Client.primaryModel] using Factory.ofMethods?_emitted hmem
  · intro m' hm' found' hf
    split at hf
    · rename_i hartifact
      split at hf
      · rename_i hpath
        exact eq_of_typePath h hfiles hm hm' (by simp [hartifact]) (by simp [hartifact]) hpath
      · cases hf
    · cases hf

/-- The items of a client stand for the types of its registry. -/
theorem implements_of_models (hr : r.WellFormed home) (hs : ∀ t ∈ r.types, t.substitution = none)
    (h : Client.models r = .ok ms)
    (hfiles : ∀ m ∈ ms, ∀ m' ∈ ms, Rust.itemFilePath m = Rust.itemFilePath m' → m = m') :
    Program.Implements ⟨home, ms⟩ r := by
  have hprimary : ∀ t ∈ r.types, t ∈ Client.primary r t.category := fun t ht =>
    Client.mem_primary.mpr ⟨ht, rfl, by rw [RegisteredType.isSubstituted, hs t ht]; rfl⟩
  refine ⟨hs, ?_, ?_, ?_⟩
  · intro t ht values hshape
    have hp := hprimary t ht
    rw [RegisteredType.category, Schema.Definition.category, hshape] at hp
    obtain ⟨m, hm, hemit⟩ := Client.exists_item h .enumeration hp
    rw [Client.Part.emit, hshape] at hemit
    obtain ⟨dependencies, found, rfl, hnames⟩ := enumeration_emitted hemit
    rw [hr.path t ht]
    exact ⟨found, values?_of_mem h hfiles hm, hnames⟩
  · intro t ht hshape
    have hp := hprimary t ht
    rw [RegisteredType.category, Schema.Definition.category, hshape] at hp
    obtain ⟨m, hm, hemit⟩ := Client.exists_item h .customScalar hp
    cases hemit
    rw [hr.path t ht]
    exact List.any_eq_true.mpr ⟨_, hm, decide_eq_true (Client.itemPath_primaryModel home t _ _)⟩
  · intro t ht interfaces fields hshape
    have hp := hprimary t ht
    rw [RegisteredType.category, Schema.Definition.category, hshape] at hp
    obtain ⟨m, hm, hemit⟩ := Client.exists_item h .outputObject hp
    obtain ⟨members, conformances, hmem, _, rfl⟩ := Client.outputObject_ok hemit
    rw [hshape] at hmem
    rw [hr.path t ht]
    exact ⟨members, hmem, factory?_of_mem h hfiles hmem hm⟩

end Implements

end Graphwright.Execution
