import Graphwright.Proofs.Client.References
import Graphwright.Proofs.Client.Renaming
import Graphwright.Proofs.Registry.Declared
import Graphwright.Proofs.Registry.Namespaces

/-!
# One more substitution

A custom scalar, an enumeration or an input object that gets a hand-written item is still the same
type at another path. So a client is generated as before, without the item for that type, and with
the new path wherever the old one stood.
-/
namespace Graphwright

/-- The path `new` in place of `old`. -/
def redirect (old new path : String) : String := if path = old then new else path

namespace Registry

open Schema (Document)

/-! ## One more entry -/

/-- Substitutions for two types can be made in any order, since two names stand at two positions. -/
theorem substitute_comm (r : Registry) {name name' : String} (path path' : String)
    (h : name ≠ name') :
    (r.substitute name path).substitute name' path' =
      (r.substitute name' path').substitute name path := by
  cases hi : r.position? name with
  | none =>
      have hmem := Entries.get?_eq_none_iff.mp hi
      rw [substitute_of_not_mem path hmem, substitute_of_not_mem path]
      rwa [names, index_substitute]
  | some i =>
      cases hj : r.position? name' with
      | none =>
          have hmem := Entries.get?_eq_none_iff.mp hj
          rw [substitute_of_not_mem path' hmem, substitute_of_not_mem path']
          rwa [names, index_substitute]
      | some j =>
          have hne : i ≠ j := fun e =>
            h (Option.some.inj ((r.sound name i hi).symm.trans (e ▸ r.sound name' j hj)))
          rw [substitute_of_position? ((position?_substitute ..).trans hj),
            substitute_of_position? ((position?_substitute ..).trans hi),
            substitute_of_position? hi, substitute_of_position? hj]
          refine Registry.ext rfl ?_ rfl rfl rfl
          refine List.ext_getElem? fun k => ?_
          simp only [substituteAt, List.getElem?_modify]
          by_cases hik : i = k
          · simp [hik, show j ≠ k from fun e => hne (hik.trans e.symm)]
          · simp [hik]

/-- The draft with one type replaced. -/
def Draft.replace (name path : String) (draft : Draft) : Draft :=
  { draft with registry := draft.registry.substitute name path }

theorem Draft.substitute_eq_replace {draft : Draft} {name path : String}
    (hblank : Text.isBlankText path = false) (h : name ∈ draft.registry.names) :
    draft.substitute (name, path) = .ok (draft.replace name path) := by
  cases hi : draft.registry.position? name with
  | none => exact absurd h (Entries.get?_eq_none_iff.mp hi)
  | some i => simp [Draft.substitute, hblank, hi, Draft.replace, substitute_of_position? hi]

/-- A substitution for another type comes to the same after the replacement. -/
theorem Draft.substitute_replace {draft draft' : Draft} {name : String} (path : String)
    {e : String × String} (hne : name ≠ e.1) (h : draft.substitute e = .ok draft') :
    (draft.replace name path).substitute e = .ok (draft'.replace name path) := by
  have hposition : (draft.replace name path).registry.position? e.1 =
      draft.registry.position? e.1 := position?_substitute ..
  unfold Draft.substitute at h ⊢
  dsimp only at h ⊢
  split at h
  · cases h
  · rename_i hblank
    rw [if_neg hblank, hposition]
    cases hi : draft.registry.position? e.1 with
    | none =>
        rw [hi] at h
        cases h
        rfl
    | some i =>
        rw [hi] at h
        cases h
        have hcomm := substitute_comm draft.registry path e.2 hne
        rw [substitute_of_position? ((position?_substitute ..).trans hi),
          substitute_of_position? hi] at hcomm
        simp only [Draft.replace, hcomm]

theorem Draft.foldlM_substitute_replace {substitutions : Substitutions} {draft draft' : Draft}
    {name : String} (path : String) (hname : name ∉ Entries.names substitutions)
    (h : substitutions.foldlM Draft.substitute draft = .ok draft') :
    substitutions.foldlM Draft.substitute (draft.replace name path) =
      .ok (draft'.replace name path) := by
  induction substitutions generalizing draft with
  | nil =>
      cases h
      rfl
  | cons e rest ih =>
      rw [List.foldlM_cons, Outcome.bind_ok] at h
      obtain ⟨next, hnext, h⟩ := h
      simp only [Entries.names, List.map_cons, List.mem_cons, not_or] at hname
      rw [List.foldlM_cons, Draft.substitute_replace path hname.1 hnext]
      exact ih hname.2 h

theorem Draft.names_of_substitutions {substitutions : Substitutions} {draft draft' : Draft}
    (h : substitutions.foldlM Draft.substitute draft = .ok draft') :
    draft'.registry.names = draft.registry.names := by
  refine Outcome.foldlM_ok (P := fun draft' : Draft => draft'.registry.names = draft.registry.names)
    ?_ rfl h
  intro before e after hnames he
  rw [registry_eq_substitute he, names, index_substitute]
  exact hnames

/-- A new substitution for a type only replaces that type. -/
theorem build_putSorted {document : Document} {home : Namespace} {substitutions : Substitutions}
    {r : Registry} {warnings : List Warning} {t : RegisteredType} {path : String}
    (h : build document home substitutions = .ok (r, warnings)) (ht : t ∈ r.types)
    (hsub : t.substitution = none) (hblank : Text.isBlankText path = false) :
    build document home (Entries.putSorted t.name path substitutions) =
      .ok (r.substitute t.name path, warnings) := by
  have hbuild := h
  have hnew : t.name ∉ Entries.names substitutions := by
    rw [eq_declared_of_build h] at ht
    obtain ⟨d, _, rfl⟩ := List.mem_map.mp ht
    exact not_mem_of_replacement? hsub
  obtain ⟨before, after, rfl, hput⟩ : ∃ before after, substitutions = before ++ after ∧
      Entries.putSorted t.name path substitutions = before ++ (t.name, path) :: after :=
    Entries.putSorted_of_not_mem hnew
  obtain ⟨draft, hdraft, h⟩ := Outcome.bind_ok.mp h
  obtain ⟨draft', hdraft', h⟩ := Outcome.bind_ok.mp h
  cases h
  rw [List.foldlM_append, Outcome.bind_ok] at hdraft'
  obtain ⟨middle, hbefore, hafter⟩ := hdraft'
  have hmem : t.name ∈ middle.registry.names := by
    rw [← Draft.names_of_substitutions hafter]
    exact mem_names_of_find? ((wellFormed_of_build hbuild).find?_name ht)
  have hrest : t.name ∉ Entries.names after := fun hn =>
    hnew (by rw [Entries.names_append]; exact List.mem_append_right _ hn)
  rw [build, hdraft, Outcome.ok_bind, hput, List.foldlM_append, hbefore, Outcome.ok_bind,
    List.foldlM_cons, Draft.substitute_eq_replace hblank hmem, Outcome.ok_bind,
    Draft.foldlM_substitute_replace path hrest hafter]
  rfl

/-! ## The same types at other paths -/

/-- A custom scalar, an enumeration or an input object that is generated, and to whose path no other
type resolves. -/
structure Replaceable (r : Registry) (t : RegisteredType) : Prop where
  mem : t ∈ r.types
  leaf : t.category = .customScalar ∨ t.category = .enumeration ∨ t.category = .inputObject
  unsubstituted : t.substitution = none
  alone : ∀ t' ∈ r.types, t'.artifactPath = t.generatedPath → t' = t

instance (r : Registry) (t : RegisteredType) : Decidable (r.Replaceable t) :=
  decidable_of_iff (t ∈ r.types ∧
    (t.category = .customScalar ∨ t.category = .enumeration ∨ t.category = .inputObject) ∧
    t.substitution = none ∧ ∀ t' ∈ r.types, t'.artifactPath = t.generatedPath → t' = t)
    ⟨fun ⟨hmem, hleaf, hsub, halone⟩ => ⟨hmem, hleaf, hsub, halone⟩,
      fun ⟨hmem, hleaf, hsub, halone⟩ => ⟨hmem, hleaf, hsub, halone⟩⟩

section

variable {home : Namespace} {r : Registry} {t : RegisteredType}

theorem WellFormed.find?_substitute (hr : r.WellFormed home) (name path n : String) :
    (r.substitute name path).find? n = (r.find? n).map (·.substitute name path) := by
  rw [find?, find?, position?_substitute, hr.types_substitute]
  cases r.position? n with
  | none => rfl
  | some i => rw [Option.bind_some, Option.bind_some, List.getElem?_map]

theorem Replaceable.eq_of_name (ht : r.Replaceable t) (hr : r.WellFormed home)
    {t' : RegisteredType} (ht' : t' ∈ r.types) (h : t'.name = t.name) : t' = t :=
  List.inj_on_of_nodup_map hr.nodup ht' ht.mem h

theorem Replaceable.ne_of_category (ht : r.Replaceable t) (hr : r.WellFormed home)
    {t' : RegisteredType} (ht' : t' ∈ r.types)
    (h : t'.category = .outputObject ∨ t'.category = .interface) : t'.name ≠ t.name := by
  intro e
  cases ht.eq_of_name hr ht' e
  rcases ht.leaf with hc | hc | hc <;> simp [hc] at h

theorem Replaceable.renames_type (ht : r.Replaceable t) (hr : r.WellFormed home) (path : String)
    {t' : RegisteredType} (ht' : t' ∈ r.types) :
    t'.Renames (redirect t.generatedPath path) (t'.substitute t.name path) where
  definition := by simp
  path := by
    by_cases h : t'.name = t.name
    · cases ht.eq_of_name hr ht' h
      rw [RegisteredType.substitute_eq rfl, RegisteredType.artifactPath,
        RegisteredType.artifactPath, ht.unsubstituted]
      exact (if_pos rfl).symm
    · rw [RegisteredType.substitute_ne h, redirect, if_neg]
      exact fun e => h (congrArg (·.name) (ht.alone t' ht' e))
  substituted hc := by rw [RegisteredType.substitute_ne (ht.ne_of_category hr ht' hc)]

theorem Replaceable.renames (ht : r.Replaceable t) (hr : r.WellFormed home) (path : String) :
    r.Renames (redirect t.generatedPath path) (r.substitute t.name path) where
  home := home_substitute ..
  queries := queries_substitute ..
  mutations := mutations_substitute ..
  find name := by
    rw [hr.find?_substitute]
    cases hfind : r.find? name with
    | none => exact Or.inl ⟨rfl, rfl⟩
    | some t' => exact Or.inr ⟨t', _, rfl, rfl, ht.renames_type hr path (mem_of_find? hfind).1⟩
  selection name := by
    rw [redirect, if_neg]
    rw [hr.path t ht.mem, hr.home_eq]
    exact home.selectionPath_ne_typePath name t.name

/-- Of a type that no longer meets a condition, only the one that has been replaced is gone. -/
theorem WellFormed.filter_substitute (hr : r.WellFormed home) {name path : String}
    {p : RegisteredType → Bool}
    (h : ∀ t ∈ r.types, p (t.substitute name path) = (p t && decide (t.name ≠ name))) :
    (r.substitute name path).types.filter p =
      (r.types.filter p).filter (fun t => decide (t.name ≠ name)) := by
  rw [hr.types_substitute, List.filter_map, List.filter_filter]
  have hfilter : r.types.filter (p ∘ (·.substitute name path)) =
      r.types.filter fun t => decide (t.name ≠ name) && p t :=
    List.filter_congr fun t ht => (h t ht).trans (Bool.and_comm _ _)
  rw [hfilter]
  conv_rhs => rw [← List.map_id (List.filter _ _)]
  refine List.map_congr_left fun t ht => ?_
  have hne := (List.mem_filter.mp ht).2
  simp only [Bool.and_eq_true, decide_eq_true_eq] at hne
  exact RegisteredType.substitute_ne hne.1

end

end Registry

namespace Client

open Code

section

variable {home : Namespace} {r : Registry} {t : RegisteredType}

theorem primary_eq_filter (r : Registry) (category : Schema.Category) : primary r category =
    r.types.filter fun t => !t.isSubstituted && decide (t.category = category) :=
  List.filter_filter

theorem selectable_eq_filter (r : Registry) : selectable r =
    r.types.filter (fun t => decide (t.category = .outputObject)) ++
      r.types.filter fun t => t.isSubstituted && decide (t.category = .interface) := by
  rw [selectable, Registry.ofCategory, Registry.ofCategory, List.filter_filter]

theorem primary_substitute (hr : r.WellFormed home) (name path : String)
    (category : Schema.Category) :
    primary (r.substitute name path) category =
      (primary r category).filter fun t => decide (t.name ≠ name) := by
  rw [primary_eq_filter, primary_eq_filter]
  refine hr.filter_substitute fun t _ => ?_
  by_cases h : t.name = name
  · rw [RegisteredType.substitute_eq h]
    simp [RegisteredType.isSubstituted, h]
  · rw [RegisteredType.substitute_ne h]
    simp [h]

theorem selectable_substitute (ht : r.Replaceable t) (hr : r.WellFormed home) (path : String) :
    selectable (r.substitute t.name path) =
      (selectable r).filter fun t' => decide (t'.name ≠ t.name) := by
  have hkept : ∀ t' ∈ r.types, t'.category = .outputObject ∨ t'.category = .interface →
      t'.substitute t.name path = t' ∧ t'.name ≠ t.name := fun t' ht' hc =>
    have hne := ht.ne_of_category hr ht' hc
    ⟨RegisteredType.substitute_ne hne, hne⟩
  rw [selectable_eq_filter, selectable_eq_filter, List.filter_append]
  congr 1
  · refine hr.filter_substitute fun t' ht' => ?_
    by_cases hc : t'.category = .outputObject
    · simp [hkept t' ht' (Or.inl hc)]
    · simp [hc]
  · refine hr.filter_substitute fun t' ht' => ?_
    by_cases hc : t'.category = .interface
    · simp [hkept t' ht' (Or.inr hc)]
    · simp [hc]

/-- No generator sees the type any more, and all others are emitted in the same order. -/
theorem emissions_substitute (ht : r.Replaceable t) (hr : r.WellFormed home) (path : String) :
    emissions (r.substitute t.name path) =
      (emissions r).filter fun e => decide (e.2.name ≠ t.name) := by
  have hsubjects : ∀ part : Part, part.subjects (r.substitute t.name path) =
      (part.subjects r).filter fun t' => decide (t'.name ≠ t.name) := by
    intro part
    cases part with
    | selectionBuilder => exact selectable_substitute ht hr path
    | service => rfl
    | _ => exact primary_substitute hr t.name path _
  simp only [emissions, List.filter_flatMap, List.filter_map, hsubjects]
  rfl

/-- One generator emits an item for the type, once. -/
theorem filter_emissions (ht : r.Replaceable t) (hr : r.WellFormed home) :
    ∃ part, part ≠ .selectionBuilder ∧ part ≠ .service ∧
      (emissions r).filter (fun e => decide (e.2.name = t.name)) = [(part, t)] := by
  have htypes : r.types.filter (fun t' => decide (t'.name = t.name)) = [t] := by
    have hfilter : r.types.filter (fun t' => decide (t'.name = t.name)) =
        r.types.filter fun t' => decide (t' = t) :=
      List.filter_congr fun t' ht' => decide_eq_decide.mpr
        ⟨fun h => ht.eq_of_name hr ht' h, fun h => h ▸ rfl⟩
    rw [hfilter, List.filter_eq, List.count_eq_one_of_mem (List.Nodup.of_map _ hr.nodup) ht.mem,
      List.replicate_one]
  have hunsubstituted : t.isSubstituted = false := by
    rw [RegisteredType.isSubstituted, ht.unsubstituted]
    rfl
  have hprimary : ∀ category, (primary r category).filter (fun t' => decide (t'.name = t.name)) =
      if t.category = category then [t] else [] := by
    intro category
    rw [primary_eq_filter, List.filter_comm, htypes, List.filter_singleton, hunsubstituted]
    simp
  have hselectable : (selectable r).filter (fun t' => decide (t'.name = t.name)) = [] := by
    rw [selectable_eq_filter, List.filter_append, List.filter_comm, htypes, List.filter_comm, htypes]
    rcases ht.leaf with hc | hc | hc <;> simp [hc]
  simp only [emissions, Part.all, Part.subjects, List.flatMap_cons, List.flatMap_nil, List.filter_append,
    List.filter_map, Function.comp_def, hprimary, hselectable]
  rcases ht.leaf with hc | hc | hc <;> simp [hc]

theorem emissions_split (ht : r.Replaceable t) (hr : r.WellFormed home) (path : String) :
    ∃ before part after, part ≠ .selectionBuilder ∧ part ≠ .service ∧
      emissions r = before ++ (part, t) :: after ∧
      emissions (r.substitute t.name path) = before ++ after := by
  obtain ⟨part, hbuilder, hservice, hpart⟩ := filter_emissions ht hr
  obtain ⟨before, after, hsplit, hbefore, _, hafter⟩ := List.filter_eq_cons_iff.mp hpart
  rw [List.filter_eq_nil_iff] at hafter
  refine ⟨before, part, after, hbuilder, hservice, hsplit, ?_⟩
  have hkept : ∀ es : List (Part × RegisteredType), (∀ e ∈ es, ¬ decide (e.2.name = t.name) = true) →
      es.filter (fun e => decide (e.2.name ≠ t.name)) = es := fun es h =>
    List.filter_eq_self.mpr fun e he => by simpa using h e he
  rw [emissions_substitute ht hr, hsplit, List.filter_append, List.filter_cons_of_neg (by simp),
    hkept before hbefore, hkept after hafter]

/-- The client of the registry in which a type has been replaced. -/
theorem models_substitute {ms : List Model} (ht : r.Replaceable t) (hr : r.WellFormed home)
    (path : String) (hms : models r = .ok ms) :
    ∃ before own after, ms = before ++ own :: after ∧
      (∃ dependencies artifact, own = primaryModel t dependencies artifact) ∧
      models (r.substitute t.name path) =
        .ok ((before ++ after).map (·.rename (redirect t.generatedPath path))) := by
  have hrenames := ht.renames hr path
  have hemit : (fun e : Part × RegisteredType => e.1.emit (r.substitute t.name path) e.2) =
      fun e => (e.1.emit r e.2).map (·.rename (redirect t.generatedPath path)) :=
    funext fun e => Part.emit_eq hrenames rfl e.1
  obtain ⟨first, part, last, hbuilder, hservice, hsplit, hsplit'⟩ := emissions_split ht hr path
  rw [models_eq, hsplit, List.mapM_append] at hms
  obtain ⟨items, hitems, hms⟩ := Outcome.bind_ok.mp hms
  obtain ⟨service, hown, hms⟩ := Outcome.bind_ok.mp hms
  obtain ⟨before, hbefore, hitems⟩ := Outcome.bind_ok.mp hitems
  obtain ⟨rest, hrest, hitems⟩ := Outcome.bind_ok.mp hitems
  rw [List.mapM_cons] at hrest
  obtain ⟨own, hemitted, hrest⟩ := Outcome.bind_ok.mp hrest
  obtain ⟨after, hafter, hrest⟩ := Outcome.bind_ok.mp hrest
  cases hrest
  cases hitems
  cases hms
  refine ⟨before, own, after ++ [service], by simp,
    (Part.item_of_emit hemitted hservice).eq_primaryModel hbuilder, ?_⟩
  rw [models_eq, hsplit', hemit, Outcome.mapM_map, List.mapM_append, hbefore, hafter,
    service_eq hrenames, hown]
  simp [Except.map, bind, Except.bind, pure, Except.pure]

/-- If a type that no other shares a path with gets a hand-written item, the client loses the item
for that type and refers to the new path in place of the old one; all else stays as it is. -/
theorem models_of_substitution {document : Schema.Document} {home : Namespace}
    {substitutions : Substitutions} {r : Registry} {warnings : List Warning} {ms : List Model}
    {t : RegisteredType} {path : String}
    (hr : Registry.build document home substitutions = .ok (r, warnings))
    (hms : models r = .ok ms) (ht : r.Replaceable t) (hpath : Text.isBlankText path = false) :
    ∃ r' before own after,
      Registry.build document home (Entries.putSorted t.name path substitutions) =
        .ok (r', warnings) ∧
      ms = before ++ own :: after ∧
      own.typeName = t.name ∧ Rust.itemPath home own = t.generatedPath ∧
      models r' = .ok ((before ++ after).map (·.rename (redirect t.generatedPath path))) := by
  have hwell := Registry.wellFormed_of_build hr
  obtain ⟨before, own, after, hsplit, ⟨dependencies, artifact, rfl⟩, hmodels⟩ :=
    models_substitute ht hwell path hms
  exact ⟨r.substitute t.name path, before, _, after,
    Registry.build_putSorted hr ht.mem ht.unsubstituted hpath, hsplit, rfl,
    (itemPath_primaryModel home t dependencies artifact).trans (hwell.path t ht.mem).symm, hmodels⟩

theorem models_of_substitution_library : ∃ r warnings ms t,
    Registry.build library .default [("Person", "crate::people::Person")] = .ok (r, warnings) ∧
    models r = .ok ms ∧ r.Replaceable t ∧ t.name = "Date" ∧
    Text.isBlankText "crate::dates::Date" = false ∧ ∃ r' before own after,
      Registry.build library .default (Entries.putSorted t.name "crate::dates::Date"
        [("Person", "crate::people::Person")]) = .ok (r', warnings) ∧
      ms = before ++ own :: after ∧
      own.typeName = t.name ∧ Rust.itemPath .default own = t.generatedPath ∧
      models r' = .ok ((before ++ after).map
        (·.rename (redirect t.generatedPath "crate::dates::Date"))) := by
  have hrun : Outcome.any (Registry.build library .default [("Person", "crate::people::Person")])
      (fun out => Outcome.any (models out.1) fun _ =>
        (out.1.find? "Date").any fun t => out.1.Replaceable t) = true := by
    decide +kernel
  obtain ⟨⟨r, warnings⟩, hr, hrun⟩ := Outcome.any_eq_true.mp hrun
  obtain ⟨ms, hms, htest⟩ := Outcome.any_eq_true.mp hrun
  obtain ⟨t, ht, hreplaceable⟩ := Option.any_eq_true _ _ |>.mp htest
  have hblank : Text.isBlankText "crate::dates::Date" = false := by decide +kernel
  exact ⟨r, warnings, ms, t, hr, hms, of_decide_eq_true hreplaceable, (Registry.mem_of_find? ht).2,
    hblank, models_of_substitution hr hms (of_decide_eq_true hreplaceable) hblank⟩

end

end Client

end Graphwright
