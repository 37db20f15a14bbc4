import Graphwright.Proofs.Client.Renaming
import Graphwright.Proofs.Files.Layout

/-!
# Definitions in another order

A schema stays the same when its definitions change places: types are looked up by name, each
generator emits one item for each type, and module indexes are sorted. So the client has the same
items in another order, and the same files. If names meet in one file, a run is refused for either
order.
-/
namespace Graphwright

open Code (Model)
open Schema (Definition Document Roots)

/-! ## Registries -/

namespace Registry

section

variable {roots : Roots} {home : Namespace} {ds ds' : List Definition}

/-- There is at most one root object of a kind. -/
theorem rootFields_perm (hds : Registrable roots ds) (hperm : ds.Perm ds') (kind : OperationKind) :
    rootFields roots kind ds = rootFields roots kind ds' := by
  have hroots := hperm.filter (rootKind? roots · = some kind)
  have hnames : ((ds.filter (rootKind? roots · = some kind)).map (·.name)).Nodup := by
    refine ((List.monotone_filter_right ds fun d hd => ?_).map _).nodup hds.nodup
    simp [takesName, of_decide_eq_true hd]
  rw [rootFields, rootFields]
  cases hroot : ds.filter (rootKind? roots · = some kind) with
  | nil => rw [hroot] at hroots; rw [hroots.symm.eq_nil]
  | cons d rest =>
      rw [hroot] at hroots hnames
      cases rest with
      | nil => rw [List.singleton_perm.mp hroots]
      | cons e rest =>
          have hkind : ∀ d' ∈ d :: e :: rest, rootKind? roots d' = some kind := by
            intro d' hd'
            rw [← hroot, List.mem_filter] at hd'
            exact of_decide_eq_true hd'.2
          have hname := eq_of_rootKind? (hkind d (by simp)) (hkind e (by simp))
          simp [hname] at hnames

/-- Documents with the same definitions have registries with the same types and operations. -/
theorem exists_build_perm {substitutions : Substitutions} {r : Registry} {warnings : List Warning}
    (hbuiltin : NoRootBuiltin roots) (hperm : ds.Perm ds')
    (h : build ⟨ds, roots⟩ home substitutions = .ok (r, warnings)) :
    ∃ r' warnings', build ⟨ds', roots⟩ home substitutions = .ok (r', warnings') ∧
      r.types.Perm r'.types ∧ r'.queries = r.queries ∧ r'.mutations = r.mutations := by
  obtain ⟨hdraft, hblank⟩ := build_ok.mp ⟨r, warnings, h⟩
  have hds := (foldlM_add_ok hbuiltin).mp hdraft
  obtain ⟨r', warnings', h'⟩ :
      ∃ r' warnings', build ⟨ds', roots⟩ home substitutions = .ok (r', warnings') :=
    build_ok.mpr ⟨(foldlM_add_ok hbuiltin).mpr (hds.perm hperm), hblank⟩
  refine ⟨r', warnings', h', ?_⟩
  rw [eq_declared_of_build h, eq_declared_of_build h']
  exact ⟨(hperm.filter _).map _, (rootFields_perm hds hperm .query).symm,
    (rootFields_perm hds hperm .mutation).symm⟩

end

/-- Types are looked up by name, whatever their order. -/
theorem renames_id {home : Namespace} {r r' : Registry} (hr : r.WellFormed home)
    (hr' : r'.WellFormed home) (htypes : r.types.Perm r'.types) (hqueries : r'.queries = r.queries)
    (hmutations : r'.mutations = r.mutations) : r.Renames id r' where
  home := hr'.home_eq.trans hr.home_eq.symm
  queries := hqueries
  mutations := hmutations
  find name := by
    have hfind : r'.find? name = r.find? name := Option.ext fun t => by
      rw [hr.find?_eq_some_iff, hr'.find?_eq_some_iff, htypes.mem_iff]
    rw [hfind]
    cases r.find? name with
    | none => exact Or.inl ⟨rfl, rfl⟩
    | some t => exact Or.inr ⟨t, t, rfl, rfl, rfl, rfl, fun _ => rfl⟩
  selection _ := rfl

end Registry

/-! ## Items -/

namespace Client

/-- Registries with the same types in another order. -/
structure Reordered (home : Namespace) (r r' : Registry) : Prop where
  left : r.WellFormed home
  right : r'.WellFormed home
  types : r.types.Perm r'.types
  queries : r'.queries = r.queries
  mutations : r'.mutations = r.mutations

section

variable {home : Namespace} {r r' : Registry} (h : Reordered home r r')

include h

/-- Both items are the same item with its paths as they are. -/
theorem Reordered.emit_eq (part : Part) (t : RegisteredType) :
    part.emit r' t = part.emit r t := by
  have hother := Registry.renames_id h.left h.right h.types h.queries h.mutations
  have hself := Registry.renames_id h.left h.left (.refl _) rfl rfl
  exact (Part.emit_eq hother rfl part).trans (Part.emit_eq hself rfl part).symm

theorem Reordered.service_eq : service r' = service r := by
  have hother := Registry.renames_id h.left h.right h.types h.queries h.mutations
  have hself := Registry.renames_id h.left h.left (.refl _) rfl rfl
  exact (Client.service_eq hother).trans (Client.service_eq hself).symm

theorem Reordered.subjects_perm (part : Part) : (part.subjects r).Perm (part.subjects r') := by
  have hcategory : ∀ category, (r.ofCategory category).Perm (r'.ofCategory category) :=
    fun category => h.types.filter _
  cases part with
  | selectionBuilder => exact (hcategory _).append ((hcategory _).filter _)
  | service => exact .refl _
  | _ => exact (hcategory _).filter _

theorem Reordered.parts {ms : List Model} (hms : models r = .ok ms) (part : Part) :
    ∃ items items', part.models r = .ok items ∧ part.models r' = .ok items' ∧
      items.Perm items' := by
  obtain ⟨items, hitems, _⟩ := exists_items hms part
  by_cases hpart : part = .service
  · subst hpart
    refine ⟨items, items, hitems, ?_, .refl _⟩
    rw [← hitems, Part.models, Part.models, h.service_eq]
  · rw [part.models_eq_mapM r hpart] at hitems
    obtain ⟨items', hitems', hperm⟩ := Outcome.mapM_perm (h.subjects_perm part) hitems
    refine ⟨items, items', by rw [part.models_eq_mapM r hpart, hitems], ?_, hperm⟩
    simp only [part.models_eq_mapM r' hpart, h.emit_eq, hitems']

theorem Reordered.models {ms : List Model} (hms : models r = .ok ms) :
    ∃ ms', Client.models r' = .ok ms' ∧ ms.Perm ms' := by
  have hemissions : (emissions r).Perm (emissions r') := by
    refine List.Perm.flatMap_left _ fun part _ => (h.subjects_perm part).map _
  rw [models_eq] at hms
  obtain ⟨items, hitems, hms⟩ := Outcome.bind_ok.mp hms
  obtain ⟨own, hown, hms⟩ := Outcome.bind_ok.mp hms
  cases hms
  obtain ⟨items', hitems', hperm⟩ := Outcome.mapM_perm hemissions hitems
  refine ⟨items' ++ [own], ?_, hperm.append_right _⟩
  simp only [models_eq, h.emit_eq, h.service_eq, hitems', hown]
  rfl

end

end Client

/-! ## Files -/

namespace Rust

section

variable {home : Namespace} {items items' : List Model} (hperm : items.Perm items')

include hperm

theorem Folder.paths_perm (hf : Folder.TwoFolders items) :
    Folder.paths items' = Folder.paths items := by
  have hf' : Folder.TwoFolders items' := fun item hitem => hf item (hperm.mem_iff.mpr hitem)
  rw [Folder.paths_eq hf, Folder.paths_eq hf', hperm.any_eq]

/-- An index is sorted, and it has one entry for each item unless names meet in one file. -/
theorem Folder.ofItems_perm
    (hfiles : ∀ m ∈ items, ∀ m' ∈ items, itemFilePath m = itemFilePath m' → m = m')
    (path : List String) : Folder.ofItems items' path = Folder.ofItems items path := by
  have hchildren := Entries.sortedNames_congr fun child =>
    (hperm.filterMap fun item => Folder.next? path item.folder).mem_iff (a := child)
  have hitems := Entries.sorted_perm ((hperm.filter (·.folder = path)).map fun item =>
    (moduleName item.name, item.name)) ?_
  · rw [← Folder.children_ofItems, ← Folder.children_ofItems] at hchildren
    rw [← Folder.items_ofItems, ← Folder.items_ofItems] at hitems
    exact Folder.ext ((Folder.path_ofItems ..).trans (Folder.path_ofItems ..).symm) hchildren.symm
      hitems.symm
  · intro a ha b hb h
    obtain ⟨m, hm, rfl⟩ := List.mem_map.mp ha
    obtain ⟨m', hm', rfl⟩ := List.mem_map.mp hb
    obtain ⟨hm, hfolder⟩ := List.mem_filter.mp hm
    obtain ⟨hm', hfolder'⟩ := List.mem_filter.mp hm'
    dsimp only at h
    have hsame : itemFilePath m = itemFilePath m' := by
      rw [itemFilePath, itemFilePath, of_decide_eq_true hfolder, of_decide_eq_true hfolder', h]
    rw [hfiles m hm m' hm' hsame]

theorem renderModules_perm (hf : Folder.TwoFolders items)
    (hfiles : ∀ m ∈ items, ∀ m' ∈ items, itemFilePath m = itemFilePath m' → m = m') :
    renderModules home items' = renderModules home items := by
  simp only [renderModules_eq, Folder.paths_perm hperm hf, Folder.ofItems_perm hperm hfiles]

end

end Rust

/-- The files of a client. They are refused if two of them collide. -/
def Client.files (backend : Backend) (home : Namespace) (items : List Model) :
    Except Failure (List GeneratedFile) := do
  let files ← backend.render home items
  GeneratedFile.checkCollisions files
  return files

theorem Client.files_perm {backend : Backend} {home : Namespace} {items items' : List Model}
    {files : List GeneratedFile} (hperm : items.Perm items') (hf : Rust.Folder.TwoFolders items)
    (h : Client.files backend home items = .ok files) :
    ∃ files', Client.files backend home items' = .ok files' ∧ files.Perm files' := by
  obtain ⟨rendered, hrender, h⟩ := Outcome.bind_ok.mp h
  obtain ⟨_, hcheck, h⟩ := Outcome.bind_ok.mp h
  cases h
  have hown := eq_of_itemFilePath hrender hcheck
  obtain ⟨rendered, indexes, hrendered, hindexes, rfl⟩ := Backend.render_ok hrender
  obtain ⟨rendered', hrendered', hfiles⟩ := Outcome.mapM_perm hperm hrendered
  have hall : (rendered ++ indexes).Perm (rendered' ++ indexes) := hfiles.append_right indexes
  refine ⟨rendered' ++ indexes, ?_, hall⟩
  have hcheck' : GeneratedFile.checkCollisions (rendered' ++ indexes) = .ok () :=
    GeneratedFile.checkCollisions_ok.mpr
      ((hall.map _).nodup (GeneratedFile.checkCollisions_ok.mp hcheck))
  cases backend
  have hrender' : Backend.render home items' .rust = .ok (rendered' ++ indexes) := by
    rw [Backend.render, hrendered', Rust.renderModules_perm hperm hf hown, hindexes]
    rfl
  rw [Client.files, hrender', Outcome.ok_bind, hcheck']
  rfl

/-! ## Documents -/

namespace Client

/-- The registry of a document and the items of its client. -/
def ofDocument (document : Document) (home : Namespace) (substitutions : Substitutions) :
    Except Failure (Registry × List Model) := do
  let (r, _) ← Registry.build document home substitutions
  return (r, ← models r)

theorem ofDocument_ok {document : Document} {home : Namespace} {substitutions : Substitutions}
    {r : Registry} {ms : List Model} : ofDocument document home substitutions = .ok (r, ms) ↔
      ∃ warnings, Registry.build document home substitutions = .ok (r, warnings) ∧
        models r = .ok ms := by
  constructor
  · intro h
    obtain ⟨⟨r', warnings⟩, hr, h⟩ := Outcome.bind_ok.mp h
    obtain ⟨ms', hms, h⟩ := Outcome.bind_ok.mp h
    cases h
    exact ⟨warnings, hr, hms⟩
  · rintro ⟨warnings, hr, hms⟩
    exact Outcome.bind_ok.mpr ⟨(r, warnings), hr, Outcome.bind_ok.mpr ⟨ms, hms, rfl⟩⟩

/-- Two clients are the same up to order: each generator emits the same items, and the files are the
same, or refused for both. -/
structure Same (c c' : Registry × List Model) : Prop where
  parts : ∀ part : Part, ∃ items items', part.models c.1 = .ok items ∧
    part.models c'.1 = .ok items' ∧ items.Perm items'
  items : c.2.Perm c'.2
  files : ∀ backend, Outcome.Agree List.Perm (Client.files backend c.1.home c.2)
    (Client.files backend c'.1.home c'.2)

theorem Same.symm {c c' : Registry × List Model} (h : Same c c') : Same c' c where
  parts part := by
    obtain ⟨items, items', hitems, hitems', hperm⟩ := h.parts part
    exact ⟨items', items, hitems', hitems, hperm.symm⟩
  items := h.items.symm
  files backend := by
    obtain ⟨hleft, hright⟩ := Outcome.agree_iff.mp (h.files backend)
    refine Outcome.agree_iff.mpr ⟨fun files hfiles => ?_, fun files hfiles => ?_⟩
    · obtain ⟨files', hfiles', hperm⟩ := hright files hfiles
      exact ⟨files', hfiles', hperm.symm⟩
    · obtain ⟨files', hfiles', hperm⟩ := hleft files hfiles
      exact ⟨files', hfiles', hperm.symm⟩

theorem exists_same {roots : Roots} {home : Namespace} {substitutions : Substitutions}
    {ds ds' : List Definition} (hbuiltin : Registry.NoRootBuiltin roots) (hperm : ds.Perm ds')
    {c : Registry × List Model} (h : ofDocument ⟨ds, roots⟩ home substitutions = .ok c) :
    ∃ c', ofDocument ⟨ds', roots⟩ home substitutions = .ok c' ∧ Same c c' := by
  obtain ⟨r, ms⟩ := c
  obtain ⟨warnings, hr, hms⟩ := ofDocument_ok.mp h
  obtain ⟨r', warnings', hr', htypes, hqueries, hmutations⟩ :=
    Registry.exists_build_perm hbuiltin hperm hr
  have hreordered : Reordered home r r' :=
    ⟨Registry.wellFormed_of_build hr, Registry.wellFormed_of_build hr', htypes, hqueries, hmutations⟩
  obtain ⟨ms', hms', hitems⟩ := hreordered.models hms
  refine ⟨(r', ms'), ofDocument_ok.mpr ⟨warnings', hr', hms'⟩, hreordered.parts hms, hitems,
    fun backend => ?_⟩
  have hhome : r'.home = r.home := hreordered.right.home_eq.trans hreordered.left.home_eq.symm
  rw [hhome]
  exact Outcome.agree_iff.mpr ⟨fun files => files_perm hitems (twoFolders_of_models hms),
    fun files hfiles => by
      obtain ⟨files', hfiles', hperm⟩ :=
        files_perm hitems.symm (twoFolders_of_models hms') hfiles
      exact ⟨files', hfiles', hperm.symm⟩⟩

/-- The order of the definitions of a schema does not matter: with the definitions in another order
there is a client exactly if there was one before, and it is the same. -/
theorem ofDocument_perm {roots : Roots} {ds ds' : List Definition} (home : Namespace)
    (substitutions : Substitutions) (hbuiltin : Registry.NoRootBuiltin roots)
    (hperm : ds.Perm ds') :
    Outcome.Agree Same (ofDocument ⟨ds, roots⟩ home substitutions)
      (ofDocument ⟨ds', roots⟩ home substitutions) := by
  refine Outcome.agree_iff.mpr ⟨fun c h => exists_same hbuiltin hperm h, fun c' h => ?_⟩
  obtain ⟨c, hc, hsame⟩ := exists_same hbuiltin hperm.symm h
  exact ⟨c, hc, hsame.symm⟩

theorem ofDocument_perm_library :
    Registry.NoRootBuiltin library.roots ∧
    (ofDocument library .default [("Person", "crate::people::Person")]).isOk = true ∧
    library.definitions.reverse ≠ library.definitions ∧
    Outcome.Agree Same (ofDocument library .default [("Person", "crate::people::Person")])
      (ofDocument ⟨library.definitions.reverse, library.roots⟩ .default
        [("Person", "crate::people::Person")]) :=
  ⟨⟨rfl, rfl⟩, by decide +kernel, by decide,
    ofDocument_perm .default _ ⟨rfl, rfl⟩ (List.reverse_perm library.definitions).symm⟩

end Client

end Graphwright
