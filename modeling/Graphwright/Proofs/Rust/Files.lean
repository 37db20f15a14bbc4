import Graphwright.Generation
import Graphwright.Proofs.Files.Collisions
import Graphwright.Proofs.Rust.Spelling

/-!
# Where generated files are

The file of an item is named for its module, in the directory of the item's folder. Items stand at
the root of the client or in the folder of the types, so there are at most two module indexes.
-/
namespace Graphwright

open Code (Model)

namespace Rust

/-! ## Files of items -/

theorem path_of_render {home : Namespace} {item : Model} {file : GeneratedFile}
    (h : render home item = .ok file) : file.path = itemFilePath item := by
  obtain ⟨content, _, h⟩ := Outcome.bind_ok.mp h
  rw [← Outcome.pure_ok.mp h]

/-- What an item is generated from, as its file says it. -/
def origin (item : Model) : String := originLabel item.artifact ++ " `" ++ item.typeName ++ "`"

theorem origin_of_render {home : Namespace} {item : Model} {file : GeneratedFile}
    (h : render home item = .ok file) : file.origin = origin item := by
  obtain ⟨content, _, h⟩ := Outcome.bind_ok.mp h
  rw [← Outcome.pure_ok.mp h]
  rfl

theorem places_of_render {home : Namespace} {ms : List Model} {files : List GeneratedFile}
    (h : List.Forall₂ (fun item file => render home item = .ok file) ms files) :
    files.map GeneratedFile.place = ms.map fun m => Path.parts (itemFilePath m) := by
  induction h with
  | nil => rfl
  | cons hfile _ ih =>
      rw [List.map_cons, List.map_cons, GeneratedFile.place, path_of_render hfile, ih]

theorem not_isAbsolute_of_canSpell {name : String} (h : CanSpell name) (rest : String) :
    Path.isAbsolute (name ++ rest) = false := by
  have hslash : Text.isIdentifierStart '/' = false := by decide
  rw [Path.isAbsolute, decide_eq_false_iff_not, String.toList_append]
  unfold CanSpell Ident.ofName Ident.rawName? at h
  intro habsolute
  cases hcs : name.toList with
  | nil => simp [hcs, Text.isIdentifier, Except.isOk, Except.toBool] at h
  | cons c cs =>
      rw [hcs] at habsolute
      cases habsolute
      simp [hcs, Text.isIdentifier, hslash, Except.isOk, Except.toBool] at h

theorem join_types {name : String} (h : CanSpell name) :
    Path.join (Path.ofNames [Client.typesFolder]) (name ++ ".rs") = "types/" ++ name ++ ".rs" := by
  have hfolder : Path.ofNames [Client.typesFolder] = "types" := by decide
  have hslash : "types/" = "types" ++ "/" := by decide
  rw [hfolder, Path.join, not_isAbsolute_of_canSpell h, hslash]
  simp [String.append_assoc]

theorem join_root (name : String) : Path.join (Path.ofNames []) (name ++ ".rs") = name ++ ".rs" := by
  rw [Path.ofNames, List.foldl_nil, Path.join]
  simp

/-! ## Module indexes -/

namespace Folder

/-- Every item stands in the folder of the types or at the root of the client. -/
def TwoFolders (items : List Model) : Prop :=
  ∀ item ∈ items, item.folder = [Client.typesFolder] ∨ item.folder = []

/-- The folders of a client, the one of the types only if there are any. -/
def upToTypes (hasTypes : Bool) : List (List String) :=
  if hasTypes then [[], [Client.typesFolder]] else [[]]

theorem pairwise_upToTypes : ∀ hasTypes, (upToTypes hasTypes).Pairwise (· < ·) := by
  decide

theorem paths_eq {items : List Model} (h : TwoFolders items) :
    paths items = upToTypes (items.any (·.folder = [Client.typesFolder])) := by
  refine (pairwise_paths items).eq_of_mem_iff (pairwise_upToTypes _) fun folder => ?_
  rw [mem_paths_iff, upToTypes]
  by_cases htypes : ∃ item ∈ items, item.folder = [Client.typesFolder]
  · rw [if_pos (by simpa using htypes)]
    simp only [List.mem_cons, List.not_mem_nil, or_false]
    refine or_congr_right' fun hroot => ⟨?_, ?_⟩
    · rintro ⟨item, hitem, hway⟩
      rcases h item hitem with hf | hf
      · rw [hf, List.prefix_cons_iff] at hway
        obtain ⟨rest, rfl, hrest⟩ := hway.resolve_left hroot
        rw [List.prefix_nil.mp hrest]
      · exact absurd (List.prefix_nil.mp (hf ▸ hway)) hroot
    · rintro rfl
      obtain ⟨item, hitem, hf⟩ := htypes
      exact ⟨item, hitem, by rw [hf]⟩
  · rw [if_neg (by simpa using htypes), List.mem_singleton]
    refine or_iff_left_of_imp ?_
    rintro ⟨item, hitem, hway⟩
    have hf := (h item hitem).resolve_left fun hf => htypes ⟨item, hitem, hf⟩
    exact List.prefix_nil.mp (hf ▸ hway)

theorem index_ok {home : Namespace} {folder : Folder} {file : GeneratedFile}
    (h : folder.index home = .ok file) :
    file.path = Path.join (Path.ofNames folder.path) "mod.rs" ∧ file.origin = "module index" := by
  obtain ⟨_, _, h⟩ := Outcome.bind_ok.mp h
  obtain ⟨content, _, h⟩ := Outcome.bind_ok.mp h
  cases h
  exact ⟨rfl, rfl⟩

end Folder

end Rust

/-! ## All files -/

/-- Where a file is, and what it is generated from. -/
def GeneratedFile.entry (file : GeneratedFile) : String × String := (file.path, file.origin)

/-- The module indexes, of which the one for the types is there only if there are any. -/
def indexEntries (hasTypes : Bool) : List (String × String) :=
  ("mod.rs", "module index") :: if hasTypes then [("types/mod.rs", "module index")] else []

theorem Rust.entries_of_renderModules {home : Namespace} {items : List Model}
    {files : List GeneratedFile} (hf : Folder.TwoFolders items)
    (h : renderModules home items = .ok files) :
    files.map (·.entry) = indexEntries (items.any (·.folder = [Client.typesFolder])) := by
  have hentries : files.map (·.entry) = (Folder.paths items).map fun path =>
      (Path.join (Path.ofNames path) "mod.rs", "module index") := by
    rw [renderModules_eq] at h
    refine Outcome.map_eq_of_mapM h fun path _ file hfile => ?_
    obtain ⟨hpath, horigin⟩ := Folder.index_ok hfile
    rw [GeneratedFile.entry, hpath, horigin, Folder.path_ofItems]
  have hindexes : ∀ hasTypes, (Folder.upToTypes hasTypes).map (fun path =>
      (Path.join (Path.ofNames path) "mod.rs", "module index")) = indexEntries hasTypes := by
    decide
  rw [hentries, Folder.paths_eq hf, hindexes]

/-- The files are those of the items, followed by the module indexes. -/
theorem Backend.render_ok {backend : Backend} {home : Namespace} {items : List Model}
    {files : List GeneratedFile} (h : backend.render home items = .ok files) :
    ∃ rendered indexes, items.mapM (Rust.render home) = .ok rendered ∧
      Rust.renderModules home items = .ok indexes ∧ files = rendered ++ indexes := by
  cases backend
  obtain ⟨rendered, hrendered, h⟩ := Outcome.bind_ok.mp h
  obtain ⟨indexes, hindexes, h⟩ := Outcome.bind_ok.mp h
  cases h
  exact ⟨rendered, indexes, hrendered, hindexes, rfl⟩

/-- Items of a client whose files do not collide have files of their own. -/
theorem eq_of_itemFilePath {backend : Backend} {home : Namespace} {ms : List Model}
    {files : List GeneratedFile} (h : backend.render home ms = .ok files)
    (hc : GeneratedFile.checkCollisions files = .ok ()) :
    ∀ m ∈ ms, ∀ m' ∈ ms, Rust.itemFilePath m = Rust.itemFilePath m' → m = m' := by
  obtain ⟨rendered, indexes, hrendered, _, rfl⟩ := Backend.render_ok h
  have hnodup := GeneratedFile.checkCollisions_ok.mp hc
  rw [List.map_append, List.nodup_append,
    Rust.places_of_render (Outcome.mapM_ok.mp hrendered)] at hnodup
  intro m hm m' hm' e
  exact List.inj_on_of_nodup_map hnodup.1 hm hm' (congrArg Path.parts e)

/-- The steps of a run. -/
theorem steps_of_generate {options : Options} {text : String} {files : List GeneratedFile}
    {warnings : List Warning} (h : generate options text = .ok (files, warnings)) :
    ∃ backend r ms, registryOfText options.home options.substitutions text = .ok (r, warnings) ∧
      Client.models r = .ok ms ∧ Backend.render r.home ms backend = .ok files ∧
      GeneratedFile.checkCollisions files = .ok () := by
  obtain ⟨backend, _, h⟩ := Outcome.bind_ok.mp h
  obtain ⟨⟨r, found⟩, hr, h⟩ := Outcome.bind_ok.mp h
  obtain ⟨ms, hms, h⟩ := Outcome.bind_ok.mp h
  obtain ⟨files', hfiles, h⟩ := Outcome.bind_ok.mp h
  obtain ⟨_, hcheck, h⟩ := Outcome.bind_ok.mp h
  cases h
  exact ⟨backend, r, ms, hr, hms, hfiles, hcheck⟩

theorem generate_ok {options : Options} {text : String} {files : List GeneratedFile}
    {warnings : List Warning} (h : generate options text = .ok (files, warnings)) :
    ∃ r ms, registryOfText options.home options.substitutions text = .ok (r, warnings) ∧
      Client.models r = .ok ms ∧
      ∀ m ∈ ms, ∀ m' ∈ ms, Rust.itemFilePath m = Rust.itemFilePath m' → m = m' := by
  obtain ⟨backend, r, ms, hr, hms, hfiles, hcheck⟩ := steps_of_generate h
  exact ⟨r, ms, hr, hms, eq_of_itemFilePath hfiles hcheck⟩

end Graphwright
