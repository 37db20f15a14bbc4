import Graphwright.Proofs.Client.Coverage

/-!
# References between generated items

Every path that a generated item refers to leads somewhere: to a hand-written item that replaces a
type, or to an item of the same client. For each type that has values one of the generators emits
the item unless it is replaced, and for each type with fields to select there is a builder.
-/
namespace Graphwright.Client

open Code

/-- The selection builder for a type. -/
def IsBuilderFor (m : Model) (t : RegisteredType) : Prop :=
  m.typeName = t.name ∧ ∃ cls, m.artifact = .fieldSelection cls

/-- An item refers only to what there is, among the items `ms` and what the registry has, and
depends on whatever it refers to. -/
structure RefersWithin (home : Namespace) (r : Registry) (ms : List Model) (m : Model) : Prop where
  dependency : ∀ p ∈ m.dependencies.artifacts,
    (∃ t ∈ r.types, t.substitution = some p) ∨ ∃ m' ∈ ms, Rust.itemPath home m' = p
  occurrence : ∀ p ∈ m.artifact.valuePaths ++ m.artifact.interfacePaths,
    p ∈ m.dependencies.artifacts ∨ p = Rust.itemPath home m
  value : ∀ p ∈ m.artifact.valuePaths,
    (∃ t ∈ r.types, t.IsConcrete ∧ t.artifactPath = p) ∨
      ∃ t ∈ r.types,
        (t.category = .outputObject ∨ t.category = .interface ∧ t.isSubstituted = true) ∧
        home.selectionPath t.name = p ∧ ∃ b ∈ ms, IsBuilderFor b t ∧ Rust.itemPath home b = p

/-! ## What the generators emit -/

theorem itemPath_primaryModel (home : Namespace) (t : RegisteredType) (dependencies : Dependencies)
    (artifact : Artifact) :
    Rust.itemPath home (primaryModel t dependencies artifact) = home.typePath t.name := rfl

/-- A type that is not substituted has an item, unless it is a union. -/
theorem exists_primaryModel {r : Registry} {ms : List Model} (h : models r = .ok ms)
    {t : RegisteredType} (ht : t ∈ r.types) (hs : t.isSubstituted = false)
    (hc : t.category ≠ .union) :
    ∃ dependencies artifact, primaryModel t dependencies artifact ∈ ms := by
  obtain ⟨part, hbuilder, hmem⟩ : ∃ part : Part, part ≠ .selectionBuilder ∧ t ∈ part.subjects r := by
    cases hcat : t.category with
    | union => exact absurd hcat hc
    | customScalar => exact ⟨.customScalar, by decide, mem_primary.mpr ⟨ht, hcat, hs⟩⟩
    | enumeration => exact ⟨.enumeration, by decide, mem_primary.mpr ⟨ht, hcat, hs⟩⟩
    | inputObject => exact ⟨.inputObject, by decide, mem_primary.mpr ⟨ht, hcat, hs⟩⟩
    | interface => exact ⟨.interface, by decide, mem_primary.mpr ⟨ht, hcat, hs⟩⟩
    | outputObject => exact ⟨.outputObject, by decide, mem_primary.mpr ⟨ht, hcat, hs⟩⟩
  obtain ⟨m, hm, hemit⟩ := exists_item h part hmem
  have hservice : part ≠ .service := by
    rintro rfl
    cases hmem
  obtain ⟨dependencies, artifact, rfl⟩ := (Part.item_of_emit hemit hservice).eq_primaryModel hbuilder
  exact ⟨_, _, hm⟩

theorem exists_builder {r : Registry} {ms : List Model} (h : models r = .ok ms)
    {t : RegisteredType} (ht : t ∈ selectable r) :
    ∃ b ∈ ms, IsBuilderFor b t ∧ Rust.itemPath r.home b = r.home.selectionPath t.name := by
  obtain ⟨b, hb, hemit⟩ := exists_item h .selectionBuilder ht
  obtain ⟨⟨hname, hcls, hpath⟩, _⟩ := selectionBuilder_ok hemit
  exact ⟨b, hb, ⟨hname, hcls⟩, hpath⟩

/-! ## Closed clients -/

/-- The path of a type with an item is that of the hand-written item or of one in the client. -/
theorem exists_item_of_isItemPath {home : Namespace} {r : Registry} {ms : List Model}
    (hr : r.WellFormed home) (h : models r = .ok ms) {p : String} (hp : IsItemPath r p) :
    (∃ t ∈ r.types, t.substitution = some p) ∨ ∃ m ∈ ms, Rust.itemPath home m = p := by
  have hgenerated : ∀ t ∈ r.types, t.isSubstituted = false → t.category ≠ .union →
      ∃ m ∈ ms, Rust.itemPath home m = t.generatedPath := by
    intro t ht hs hc
    obtain ⟨dependencies, artifact, hm⟩ := exists_primaryModel h ht hs hc
    exact ⟨_, hm, by rw [itemPath_primaryModel, hr.path t ht]⟩
  rcases hp with (⟨t, ht, hc, rfl⟩ | ⟨t, ht, rfl⟩) | ⟨t, ht, rfl⟩
  · cases hs : t.substitution with
    | some path => exact Or.inl ⟨t, ht, by simp [RegisteredType.artifactPath, hs]⟩
    | none =>
        right
        rw [RegisteredType.artifactPath, hs]
        exact hgenerated t ht (by simp [RegisteredType.isSubstituted, hs]) hc.1
  · obtain ⟨b, hb, _, hpath⟩ := exists_builder h ht
    rw [hr.home_eq] at hpath ⊢
    exact Or.inr ⟨b, hb, hpath⟩
  · obtain ⟨ht, hc, hs⟩ := mem_primary.mp ht
    exact Or.inr (hgenerated t ht hs (by rw [hc]; exact Schema.Category.noConfusion))

/-- A client is closed: its items refer to each other and to hand-written items only, and depend on
whatever they refer to. -/
theorem models_refersWithin {document : Schema.Document} {home : Namespace}
    {substitutions : Substitutions} {r : Registry} {warnings : List Warning} {ms : List Model}
    (hr : Registry.build document home substitutions = .ok (r, warnings)) (h : models r = .ok ms) :
    ∀ m ∈ ms, RefersWithin home r ms m := by
  have hw := Registry.wellFormed_of_build hr
  intro m hm
  obtain ⟨part, hemits⟩ := (mem_models h).mp hm
  have hcov := hemits.isCovered
  refine ⟨fun p hp => exists_item_of_isItemPath hw h (hcov.values.declares p hp), ?_, ?_⟩
  · intro p hp
    rcases List.mem_append.mp hp with hp | hp
    · rw [← hw.home_eq]
      exact hcov.values.subset p hp
    · exact Or.inl (hcov.interfaces p hp).1
  · intro p hp
    rcases hcov.values.occurs p hp with hp | ⟨t, ht, rfl⟩
    · exact Or.inl hp
    · obtain ⟨b, hb, hfor, hpath⟩ := exists_builder h ht
      obtain ⟨htypes, hc⟩ := mem_selectable.mp ht
      rw [hw.home_eq] at hpath ⊢
      exact Or.inr ⟨t, htypes, hc, rfl, b, hb, hfor, hpath⟩

/-- Types of all categories, of which a hand-written item replaces one interface. -/
def library : Schema.Document where
  definitions := [
    ⟨"Date", none, .scalar⟩,
    ⟨"Genre", none, .enumeration [⟨"NOVEL", none⟩, ⟨"POETRY", none⟩]⟩,
    ⟨"Filter", none, .inputObject [⟨"genre", none, .nonNull (.named "Genre"), none⟩,
      ⟨"also", none, .list (.named "Filter"), none⟩]⟩,
    ⟨"Titled", none, .interface [⟨"title", none, [], .named "String"⟩,
      ⟨"genre", none, [], .named "Genre"⟩]⟩,
    ⟨"Person", none, .interface [⟨"name", none, [], .named "String"⟩,
      ⟨"books", none, [⟨"where", none, .named "Filter", none⟩], .list (.named "Book")⟩]⟩,
    ⟨"Book", none, .object ["Titled", "Person"] [⟨"title", none, [], .nonNull (.named "String")⟩,
      ⟨"genre", none, [], .named "Genre"⟩, ⟨"author", none, [], .named "Person"⟩,
      ⟨"sequel", none, [], .named "Book"⟩, ⟨"printed", none, [], .list (.named "Date")⟩]⟩,
    ⟨"Anything", none, .union ["Book"]⟩,
    ⟨"Query", none, .object [] [⟨"books", none, [⟨"where", none, .named "Filter", none⟩,
      ⟨"since", none, .nonNull (.named "Date"), none⟩], .list (.nonNull (.named "Book"))⟩]⟩]
  roots := {}

theorem models_refersWithin_library : ∃ r warnings ms,
    Registry.build library .default [("Person", "crate::people::Person")] = .ok (r, warnings) ∧
    models r = .ok ms ∧ (∃ m ∈ ms, "crate::people::Person" ∈ m.dependencies.artifacts) ∧
    ∀ m ∈ ms, RefersWithin .default r ms m := by
  have hrun : Outcome.any (Registry.build library .default [("Person", "crate::people::Person")])
      (fun out => Outcome.any (models out.1) fun ms =>
        ms.any fun m => "crate::people::Person" ∈ m.dependencies.artifacts) = true := by
    decide +kernel
  obtain ⟨⟨r, warnings⟩, hr, hrun⟩ := Outcome.any_eq_true.mp hrun
  obtain ⟨ms, h, hdep⟩ := Outcome.any_eq_true.mp hrun
  obtain ⟨m, hm, hdep⟩ := List.any_eq_true.mp hdep
  exact ⟨r, warnings, ms, hr, h, ⟨m, hm, by simpa using hdep⟩, models_refersWithin hr h⟩

end Graphwright.Client
