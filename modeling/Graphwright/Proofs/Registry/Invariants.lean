import Graphwright.Proofs.Entries
import Graphwright.Proofs.Outcome
import Graphwright.Registry.Build
import Mathlib.Data.List.Nodup

/-!
# What holds of every registry

Building a registry keeps names distinct and the index in step with the types, gives every type the
path that its name has in the namespace, and never registers a built-in scalar. So a look-up finds
exactly the registered type.
-/
namespace Graphwright.Registry

/-- What registering, adding operations and substituting all preserve. -/
structure WellFormed (home : Namespace) (r : Registry) : Prop where
  home_eq : r.home = home
  nodup : (r.types.map (·.name)).Nodup
  /-- The index is made of the names with their positions. -/
  index_eq : r.index = (r.types.map (·.name)).zipIdx
  path : ∀ t ∈ r.types, t.generatedPath = home.typePath t.name
  notBuiltin : ∀ t ∈ r.types, Primitive.ofName? t.name = none

theorem WellFormed.empty (home : Namespace) : (Registry.empty home).WellFormed home :=
  ⟨rfl, .nil, rfl, List.forall_mem_nil _, List.forall_mem_nil _⟩

/-- Operations are kept apart from types. -/
theorem WellFormed.of_types_eq {home : Namespace} {r r' : Registry} (h : r.WellFormed home)
    (hh : r'.home = r.home) (ht : r'.types = r.types) (hi : r'.index = r.index) :
    r'.WellFormed home :=
  ⟨hh.trans h.home_eq, ht ▸ h.nodup, hi ▸ ht ▸ h.index_eq, ht ▸ h.path, ht ▸ h.notBuiltin⟩

/-! ## The index -/

theorem WellFormed.names_eq {home : Namespace} {r : Registry} (h : r.WellFormed home) :
    r.names = r.types.map (·.name) := by
  rw [names, h.index_eq, Entries.names, List.zipIdx_map_fst]

/-- The index holds exactly the positions of the names. -/
theorem WellFormed.position?_eq_some_iff {home : Namespace} {r : Registry} (h : r.WellFormed home)
    {name : String} {i : Nat} :
    r.position? name = some i ↔ r.types[i]?.map (·.name) = some name := by
  rw [position?, h.index_eq, ← List.getElem?_map, ← List.mk_mem_zipIdx_iff_getElem?]
  refine ⟨Entries.mem_of_get?, Entries.get?_eq_of_mem ?_⟩
  rw [Entries.names, List.zipIdx_map_fst]
  exact h.nodup

/-! ## Building -/

/-- A type with a new name keeps the index in step. -/
theorem WellFormed.insert {home : Namespace} {r : Registry} (h : r.WellFormed home)
    {t : RegisteredType} (hnew : t.name ∉ r.names) (hpath : t.generatedPath = home.typePath t.name)
    (hbuiltin : Primitive.ofName? t.name = none) : (r.insert t).WellFormed home where
  home_eq := h.home_eq
  nodup := by
    rw [types_insert, List.map_append]
    exact Entries.nodup_concat h.nodup (h.names_eq ▸ hnew)
  index_eq := by
    rw [index_insert, Entries.put_of_not_mem hnew, h.index_eq, types_insert, List.map_append,
      List.zipIdx_append, List.length_map, Nat.zero_add]
    rfl
  path := List.forall_mem_append.mpr ⟨h.path, List.forall_mem_singleton.mpr hpath⟩
  notBuiltin := List.forall_mem_append.mpr ⟨h.notBuiltin, List.forall_mem_singleton.mpr hbuiltin⟩

theorem register_eq_added {r r' : Registry} {d : Schema.Definition} (h : r.register d = .added r') :
    Primitive.ofName? d.name = none ∧ d.name ∉ r.names ∧
      r' = r.insert ⟨d, r.home.typePath d.name, none⟩ := by
  unfold register at h
  split at h
  · split at h <;> cases h
  · rename_i hb
    split at h
    · cases h
    · rename_i hn
      cases h
      exact ⟨by simpa using hb, hn, rfl⟩

theorem WellFormed.register {home : Namespace} {r r' : Registry} {d : Schema.Definition}
    (h : r.WellFormed home) (hr : r.register d = .added r') : r'.WellFormed home := by
  obtain ⟨hb, hn, rfl⟩ := register_eq_added hr
  exact h.insert hn (by rw [h.home_eq]; rfl) hb

theorem addOperations_types {kind : OperationKind} {r r' : Registry} {fs : List Schema.Field}
    (h : addOperations kind r fs = .ok r') :
    r'.home = r.home ∧ r'.types = r.types ∧ r'.index = r.index := by
  induction fs generalizing r with
  | nil => cases h; exact ⟨rfl, rfl, rfl⟩
  | cons f fs ih =>
      simp only [addOperations] at h
      split at h
      · cases h
      · cases kind with
        | query =>
            obtain ⟨hh, ht⟩ := ih h
            exact ⟨hh, ht⟩
        | mutation =>
            obtain ⟨hh, ht⟩ := ih h
            exact ⟨hh, ht⟩

/-- What does not look at substitutions is found in the same types. -/
theorem exists_mem_of_mem_substituteAt {α : Type} {g : RegisteredType → α}
    (hg : ∀ t path, g { t with substitution := some path } = g t) {r : Registry} {position : Nat}
    {path : String} {t : RegisteredType} (ht : t ∈ (r.substituteAt position path).types) :
    ∃ t' ∈ r.types, g t' = g t := by
  have hmem := List.mem_map_of_mem (f := g) ht
  rw [map_types_substituteAt hg] at hmem
  exact List.mem_map.mp hmem

theorem WellFormed.substituteAt {home : Namespace} {r : Registry} (h : r.WellFormed home)
    (position : Nat) (path : String) : (r.substituteAt position path).WellFormed home := by
  have hnames := map_types_substituteAt (g := (·.name)) (fun _ _ => rfl) r position path
  refine ⟨h.home_eq, hnames ▸ h.nodup, ?_, fun t ht => ?_, fun t ht => ?_⟩
  · rw [hnames, index_substituteAt]
    exact h.index_eq
  · obtain ⟨t', ht', hkept⟩ := exists_mem_of_mem_substituteAt
      (g := fun t => (t.name, t.generatedPath)) (fun _ _ => rfl) ht
    obtain ⟨hname, hgenerated⟩ := Prod.mk.inj hkept
    rw [← hname, ← hgenerated]
    exact h.path t' ht'
  · obtain ⟨t', ht', hname⟩ := exists_mem_of_mem_substituteAt (g := (·.name)) (fun _ _ => rfl) ht
    rw [← hname]
    exact h.notBuiltin t' ht'

theorem Draft.registry_of_add {roots : Schema.Roots} {draft draft' : Draft} {d : Schema.Definition}
    (h : draft.add roots d = .ok draft') :
    (draft'.registry.home = draft.registry.home ∧ draft'.registry.types = draft.registry.types ∧
        draft'.registry.index = draft.registry.index) ∨
      draft.registry.register d = .added draft'.registry := by
  unfold Draft.add at h
  dsimp only at h
  split at h
  · cases h
  · split at h
    · obtain ⟨r, hr, h⟩ := Outcome.bind_ok.mp h
      cases h
      exact Or.inl (addOperations_types hr)
    · split at h
      · rename_i hr
        cases h
        exact Or.inr hr
      · cases h
        exact Or.inl ⟨rfl, rfl, rfl⟩
      · cases h

theorem Draft.registry_of_substitute {draft draft' : Draft} {entry : String × String}
    (h : draft.substitute entry = .ok draft') :
    draft'.registry = draft.registry ∨
      ∃ position, draft'.registry = draft.registry.substituteAt position entry.2 := by
  unfold Draft.substitute at h
  dsimp only at h
  split at h
  · cases h
  · split at h
    · cases h; exact Or.inr ⟨_, rfl⟩
    · cases h; exact Or.inl rfl

/-- A registry is well-formed once the definitions are registered, and then nothing is
substituted yet. -/
theorem wellFormed_of_definitions {document : Schema.Document} {home : Namespace} {draft : Draft}
    (h : document.definitions.foldlM (Draft.add document.roots) ⟨empty home, [], []⟩ = .ok draft) :
    draft.registry.WellFormed home ∧ ∀ t ∈ draft.registry.types, t.substitution = none := by
  refine Outcome.foldlM_ok
    (P := fun draft : Draft => draft.registry.WellFormed home ∧
      ∀ t ∈ draft.registry.types, t.substitution = none) ?_
    ⟨.empty home, by simp [Registry.empty]⟩ h
  rintro draft d draft' ⟨hw, hs⟩ hadd
  rcases Draft.registry_of_add hadd with ⟨hh, ht, hi⟩ | hr
  · exact ⟨hw.of_types_eq hh ht hi, by rw [ht]; exact hs⟩
  · refine ⟨hw.register hr, ?_⟩
    obtain ⟨_, _, e⟩ := register_eq_added hr
    rw [e]
    intro t ht
    rcases List.mem_append.mp ht with ht | ht
    · exact hs t ht
    · cases List.mem_singleton.mp ht
      rfl

theorem WellFormed.of_substitutions {home : Namespace} {substitutions : Substitutions}
    {draft draft' : Draft} (hw : draft.registry.WellFormed home)
    (h : substitutions.foldlM Draft.substitute draft = .ok draft') :
    draft'.registry.WellFormed home := by
  refine Outcome.foldlM_ok (P := fun draft : Draft => draft.registry.WellFormed home) ?_ hw h
  intro draft entry draft' hw he
  rcases Draft.registry_of_substitute he with e | ⟨position, e⟩
  · rw [e]; exact hw
  · rw [e]; exact hw.substituteAt position entry.2

theorem wellFormed_of_build {document : Schema.Document} {home : Namespace}
    {substitutions : Substitutions} {r : Registry} {ws : List Warning}
    (h : build document home substitutions = .ok (r, ws)) : r.WellFormed home := by
  obtain ⟨draft, hd, h⟩ := Outcome.bind_ok.mp h
  obtain ⟨draft', hs, h⟩ := Outcome.bind_ok.mp h
  cases h
  exact (wellFormed_of_definitions hd).1.of_substitutions hs

theorem unsubstituted_of_build {document : Schema.Document} {home : Namespace} {r : Registry}
    {ws : List Warning} (h : build document home [] = .ok (r, ws)) :
    ∀ t ∈ r.types, t.substitution = none := by
  obtain ⟨draft, hd, h⟩ := Outcome.bind_ok.mp h
  cases h
  exact (wellFormed_of_definitions hd).2

theorem definition_mem_of_build {document : Schema.Document} {home : Namespace}
    {substitutions : Substitutions} {r : Registry} {ws : List Warning}
    (h : build document home substitutions = .ok (r, ws)) :
    ∀ t ∈ r.types, t.definition ∈ document.definitions := by
  obtain ⟨draft, hd, h⟩ := Outcome.bind_ok.mp h
  obtain ⟨draft', hs, h⟩ := Outcome.bind_ok.mp h
  cases h
  let P (draft : Draft) : Prop := ∀ t ∈ draft.registry.types, t.definition ∈ document.definitions
  have hadd : P draft := by
    refine Outcome.foldlM_ok_of_mem (P := P) ?_ (by simp [P, Registry.empty]) hd
    intro draft d hd draft' hP hadd
    rcases Draft.registry_of_add hadd with ⟨_, e, _⟩ | hr
    · rw [show P draft' ↔ P draft by simp only [P, e]]
      exact hP
    · obtain ⟨_, _, e⟩ := register_eq_added hr
      simp only [P, e]
      intro t ht
      rcases List.mem_append.mp ht with ht | ht
      · exact hP t ht
      · cases List.mem_singleton.mp ht
        exact hd
  refine Outcome.foldlM_ok (P := P) ?_ hadd hs
  intro draft entry draft' hP he
  rcases Draft.registry_of_substitute he with e | ⟨position, e⟩
  · simp only [P, e]
    exact hP
  · simp only [P, e]
    intro t ht
    obtain ⟨t', ht', hdefinition⟩ :=
      exists_mem_of_mem_substituteAt (g := (·.definition)) (fun _ _ => rfl) ht
    exact hdefinition ▸ hP t' ht'

/-! ## Operations -/

theorem addOperations_operations {kind : OperationKind} {r r' : Registry} {fs : List Schema.Field}
    (h : addOperations kind r fs = .ok r') :
    ∀ k, ∀ f ∈ r'.operations k, f ∈ r.operations k ∨ f ∈ fs := by
  induction fs generalizing r with
  | nil =>
      cases h
      exact fun _ _ hf => Or.inl hf
  | cons f fs ih =>
      simp only [addOperations] at h
      split at h
      · cases h
      · intro k g hg
        cases kind
        all_goals
          rcases ih h k g hg with hg | hg
          · cases k <;> simp only [operations, List.mem_append, List.mem_singleton] at hg ⊢ <;> grind
          · exact Or.inr (List.mem_cons_of_mem f hg)

theorem Draft.operations_of_add {roots : Schema.Roots} {draft draft' : Draft}
    {d : Schema.Definition} (h : draft.add roots d = .ok draft') :
    ∀ k, ∀ f ∈ draft'.registry.operations k, f ∈ draft.registry.operations k ∨ f ∈ fieldsOf d.shape := by
  unfold Draft.add at h
  dsimp only at h
  split at h
  · cases h
  · split at h
    · obtain ⟨r, hr, h⟩ := Outcome.bind_ok.mp h
      cases h
      exact addOperations_operations hr
    · split at h
      · rename_i hr
        cases h
        obtain ⟨_, _, e⟩ := register_eq_added hr
        rw [e]
        exact fun k f hf => Or.inl (by cases k <;> exact hf)
      · cases h
        exact fun _ _ hf => Or.inl hf
      · cases h

/-- Every operation is a field of a definition. -/
theorem operation_mem_of_build {document : Schema.Document} {home : Namespace}
    {substitutions : Substitutions} {r : Registry} {ws : List Warning}
    (h : build document home substitutions = .ok (r, ws)) :
    ∀ k, ∀ f ∈ r.operations k, ∃ d ∈ document.definitions, f ∈ fieldsOf d.shape := by
  obtain ⟨draft, hd, h⟩ := Outcome.bind_ok.mp h
  obtain ⟨draft', hs, h⟩ := Outcome.bind_ok.mp h
  cases h
  let P (draft : Draft) : Prop := ∀ k, ∀ f ∈ draft.registry.operations k,
    ∃ d ∈ document.definitions, f ∈ fieldsOf d.shape
  have hadd : P draft := by
    refine Outcome.foldlM_ok_of_mem (P := P) ?_ ?_ hd
    · intro draft d hd draft' hP hadd k f hf
      rcases Draft.operations_of_add hadd k f hf with hf | hf
      · exact hP k f hf
      · exact ⟨d, hd, hf⟩
    · intro k f hf
      cases k <;> cases hf
  refine Outcome.foldlM_ok (P := P) ?_ hadd hs
  intro draft entry draft' hP he k f hf
  rcases Draft.registry_of_substitute he with e | ⟨position, e⟩
  · exact hP k f (e ▸ hf)
  · rw [e, operations_substituteAt] at hf
    exact hP k f hf

/-! ## Looking up -/

theorem WellFormed.find?_name {home : Namespace} {r : Registry} (h : r.WellFormed home)
    {t : RegisteredType} (ht : t ∈ r.types) : r.find? t.name = some t := by
  obtain ⟨i, hi⟩ := List.mem_iff_getElem?.mp ht
  have hposition : r.position? t.name = some i :=
    h.position?_eq_some_iff.mpr (by rw [hi, Option.map_some])
  rw [find?, hposition, Option.bind_some, hi]

theorem WellFormed.find?_eq_some_iff {home : Namespace} {r : Registry} (h : r.WellFormed home)
    {name : String} {t : RegisteredType} :
    r.find? name = some t ↔ t ∈ r.types ∧ t.name = name :=
  ⟨mem_of_find?, fun ⟨ht, hn⟩ => hn ▸ h.find?_name ht⟩

end Graphwright.Registry
