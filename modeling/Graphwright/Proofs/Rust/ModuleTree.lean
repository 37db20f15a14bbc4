import Graphwright.Proofs.Client.MemberNames
import Graphwright.Proofs.Rust.Files

/-!
# The tree of modules

A module index declares the folders in its own and the items in it. If the items of a client have
files of their own, and none of them stands where an index does or beside a folder of its name, then
the declarations lead from the root to every file, and each leads to one file.
-/
namespace Graphwright.Rust

open Code (Model)

/-! ## Indexes -/

/-- The path of the file in a folder that is named for a module. -/
def filePath (folder : List String) (stem : String) : String :=
  Path.join (Path.ofNames folder) (stem ++ ".rs")

/-- The path of the module index of a folder. -/
def indexPath (folder : List String) : String := filePath folder "mod"

/-- A module index as data. -/
structure ModuleIndex where
  folder : List String
  file : File

/-- The file that a module index is written to. -/
def ModuleIndex.written (index : ModuleIndex) : GeneratedFile :=
  ⟨indexPath index.folder, index.file.source, "module index"⟩

/-- The module of an item's file, and the item that is exported from it. -/
structure Export where
  stem : Ident
  name : Ident

def Export.items (e : Export) : List Item :=
  [.module false e.stem, .use true [e.stem] [e.name]]

/-- The export is that of the item, and its module has the stem of the item's file. -/
structure Export.IsOf (e : Export) (item : Model) : Prop where
  escaped_stem : Ident.escaped (moduleName item.name) = .ok e.stem
  stem_name : e.stem.name = moduleName item.name
  file : filePath item.folder e.stem.name = itemFilePath item
  name : Ident.escaped item.name = .ok e.name

/-- An index declares each folder in its own once, and exports each item in it once. -/
structure Declares (items : List Model) (folder : List String) (declared : List Item)
    (children : List String) (members : List Model) (exports : List Export) : Prop where
  declared_eq : declared = (children.map fun child => .module true (.plain child)) ++
    exports.flatMap Export.items
  nodup : children.Nodup
  mem_children : ∀ child, child ∈ children ↔ ∃ item ∈ items, folder ++ [child] <+: item.folder
  perm : members.Perm (items.filter (·.folder = folder))
  exported : List.Forall₂ (fun item e => e.IsOf item) members exports

/-- The names of folders are identifiers and no keywords, and files do not stand in each other's
way. -/
structure Placeable (items : List Model) : Prop where
  isName : ∀ item ∈ items, ∀ s ∈ item.folder,
    Text.isIdentifier s.toList = true ∧ s ∉ rawKeywords ∧ s ∉ pathKeywords
  distinct : (items.map itemFilePath).Nodup
  not_index : ∀ item ∈ items, itemFilePath item ≠ indexPath item.folder
  beside : ∀ item ∈ items, ∀ item' ∈ items,
    ¬ item.folder ++ [moduleName item.name] <+: item'.folder

theorem Folder.exists_index {home : Namespace} {folder : Folder} {file : GeneratedFile}
    (h : folder.index home = .ok file) : ∃ index : ModuleIndex, (index.folder = folder.path ∧
      folder.declarations = .ok index.file.items) ∧ file = index.written := by
  obtain ⟨declared, hdeclared, h⟩ := Outcome.bind_ok.mp h
  obtain ⟨checked, hchecked, h⟩ := Outcome.bind_ok.mp h
  cases File.eq_of_checked hchecked
  cases h
  exact ⟨⟨folder.path, titledFile (folder.title home) declared⟩, ⟨rfl, hdeclared⟩, rfl⟩

theorem exists_indexes {home : Namespace} {items : List Model} {generated : List GeneratedFile}
    (h : renderModules home items = .ok generated) : ∃ indexes : List ModuleIndex,
      generated = indexes.map ModuleIndex.written ∧
      indexes.map (·.folder) = Folder.paths items ∧
      ∀ index ∈ indexes,
        (Folder.ofItems items index.folder).declarations = .ok index.file.items := by
  obtain ⟨indexes, hall, rfl⟩ :=
    Outcome.exists_forall₂_map ((Outcome.mapM_ok.mp h).imp fun _ _ => Folder.exists_index)
  refine ⟨indexes, rfl, ?_, fun index hindex => ?_⟩
  · have hfolders : List.Forall₂ Eq (indexes.map (·.folder)) (Folder.paths items) :=
      List.forall₂_map_left_iff.mpr (List.forall₂_map_right_iff.mpr
        (hall.flip.imp fun _ _ h => h.1))
    rwa [List.forall₂_eq_eq_eq] at hfolders
  · obtain ⟨folder, hfolder, hpath, hdeclared⟩ := Outcome.mem_of_forall₂' hall index hindex
    rw [hpath, Folder.ofItems, (Folder.ordered_all items).lookup_of_mem hfolder]
    exact hdeclared

/-! ## Declarations -/

namespace Ident

theorem escaped_of_isIdentifier {name : String} (h : Text.isIdentifier name.toList = true)
    (hraw : name ∉ rawKeywords) (hpath : name ∉ pathKeywords) :
    escaped name = .ok (.plain name) := by
  have hmark : '#' ∉ name.toList := Text.not_mem_of_isIdentifier h (by decide)
  rw [escaped, if_neg hpath, if_neg hraw, ofName, rawName?_eq_none hmark]
  exact if_pos h

end Ident

theorem not_mem_moduleName (item : String) : '#' ∉ (moduleName item).toList := by
  unfold moduleName
  dsimp only
  split
  · rw [String.toList_append, List.mem_append]
    exact fun hmem => hmem.elim (Text.not_mem_snakeCase item) (by decide)
  · exact Text.not_mem_snakeCase item

theorem moduleName_not_mem (item : String) : moduleName item ∉ pathKeywords := by
  have hescaped : ∀ k ∈ pathKeywords, k ++ "_" ∉ pathKeywords := by decide
  unfold moduleName
  dsimp only
  split
  · exact hescaped _ ‹_›
  · assumption

theorem Export.exists_isOf {item : Model} {declared : List Item}
    (h : (do
      let file ← Ident.escaped (moduleName item.name)
      return [Item.module false file, .use true [file] [← Ident.escaped item.name]]) =
        (.ok declared : Except Failure (List Item))) :
    ∃ e : Export, e.IsOf item ∧ declared = e.items := by
  obtain ⟨stem, hstem, h⟩ := Outcome.bind_ok.mp h
  obtain ⟨name, hname, h⟩ := Outcome.bind_ok.mp h
  cases h
  have hsame := Ident.escaped_name (not_mem_moduleName item.name) hstem
  rw [if_neg (moduleName_not_mem item.name)] at hsame
  exact ⟨⟨stem, name⟩, ⟨hstem, hsame, congrArg (filePath item.folder) hsame, hname⟩, rfl⟩

/-- The index of a folder declares what is in it. -/
theorem Folder.exists_declares {items : List Model} (hitems : Placeable items)
    {folder : List String} {declared : List Item}
    (h : (Folder.ofItems items folder).declarations = .ok declared) :
    ∃ children members exports, Declares items folder declared children members exports := by
  obtain ⟨modules, hmodules, h⟩ := Outcome.bind_ok.mp h
  obtain ⟨exported, hexported, h⟩ := Outcome.bind_ok.mp h
  cases h
  obtain ⟨members, hperm, hmembers⟩ := exists_members hitems.distinct folder
  have hchildren : modules =
      (ofItems items folder).children.map fun child => .module true (.plain child) := by
    refine (List.map_id _).symm.trans (Outcome.map_eq_of_mapM hmodules fun c hc m hm => ?_)
    obtain ⟨item, hitem, hchild⟩ := mem_children.mp hc
    obtain ⟨hident, hraw, hpath⟩ := hitems.isName item hitem c (hchild.subset (by simp))
    rw [Ident.escaped_of_isIdentifier hident hraw hpath] at hm
    cases hm
    rfl
  rw [hmembers] at hexported
  have hall := List.forall₂_map_left_iff.mp (Outcome.mapM_ok.mp hexported)
  obtain ⟨exports, hexports, rfl⟩ := Outcome.exists_forall₂_map (R := fun item e => Export.IsOf e item)
    (f := Export.items) (hall.imp fun _ _ => Export.exists_isOf)
  refine ⟨_, members, exports, ?_, nodup_children items folder, fun _ => mem_children, hperm,
    hexports⟩
  rw [hchildren, List.flatMap_def]

namespace Declares

variable {items : List Model} {folder : List String} {declared : List Item} {children : List String}
  {members : List Model} {exports : List Export}
  (h : Declares items folder declared children members exports)

include h

theorem mem_members {item : Model} : item ∈ members ↔ item ∈ items ∧ item.folder = folder := by
  rw [h.perm.mem_iff, List.mem_filter, decide_eq_true_iff]

theorem module_child {item : Model} (hitem : item ∈ items) {child : String}
    (hchild : folder ++ [child] <+: item.folder) : .module true (.plain child) ∈ declared := by
  have hlisted := (h.mem_children child).mpr ⟨item, hitem, hchild⟩
  rw [h.declared_eq]
  exact List.mem_append_left _ (List.mem_map_of_mem hlisted)

theorem exists_module_item {item : Model} (hitem : item ∈ items) (hfolder : item.folder = folder) :
    ∃ stem, .module false stem ∈ declared ∧ stem.name = moduleName item.name := by
  obtain ⟨e, he, heitem⟩ :=
    Outcome.mem_of_forall₂ h.exported item (h.mem_members.mpr ⟨hitem, hfolder⟩)
  refine ⟨e.stem, ?_, heitem.stem_name⟩
  rw [h.declared_eq]
  exact List.mem_append_right _ (List.mem_flatMap.mpr ⟨e, he, List.mem_cons_self⟩)

/-- A module that is declared is a folder or that of an item. -/
theorem module_cases {isPublic : Bool} {i : Ident} (hi : .module isPublic i ∈ declared) :
    (∃ item ∈ items, folder ++ [i.name] <+: item.folder) ∨
      ∃ item ∈ items, item.folder = folder ∧ i.name = moduleName item.name := by
  rw [h.declared_eq] at hi
  rcases List.mem_append.mp hi with hi | hi
  · obtain ⟨child, hchild, e⟩ := List.mem_map.mp hi
    cases e
    exact Or.inl ((h.mem_children child).mp hchild)
  · obtain ⟨e, he, hi⟩ := List.mem_flatMap.mp hi
    obtain ⟨item, hitem, heitem⟩ := Outcome.mem_of_forall₂' h.exported e he
    obtain ⟨hitem, hfolder⟩ := h.mem_members.mp hitem
    rcases List.mem_cons.mp hi with e | hi
    · cases e
      exact Or.inr ⟨item, hitem, hfolder, heitem.stem_name⟩
    · cases List.mem_singleton.mp hi

end Declares

/-! ## Paths -/

theorem filePath_inj {folder folder' : List String} {stem stem' : String}
    (hfolder : ∀ s ∈ folder, Path.IsPart s) (hstem : Path.IsPart stem)
    (hfolder' : ∀ s ∈ folder', Path.IsPart s) (hstem' : Path.IsPart stem') :
    filePath folder stem = filePath folder' stem' ↔ folder = folder' ∧ stem = stem' := by
  have hending : '/' ∉ ".rs".toList := by decide
  rw [filePath, filePath, Path.join_ofNames_inj hfolder (hstem.append hending) hfolder'
    (hstem'.append hending), String.append_left_inj]

theorem isPart_mod : Path.IsPart "mod" := ⟨by decide, by decide⟩

/-- The paths of all files: those of items and those of indexes. -/
def treeFiles (items : List Model) (generated : List GeneratedFile) : List String :=
  items.map itemFilePath ++ generated.map (·.path)

/-- Where the file of a module can be that the index of a folder declares. -/
def moduleFiles (folder : List String) (i : Ident) : List String :=
  [filePath folder i.name, indexPath (folder ++ [i.name])]

section

variable {items : List Model} (hitems : Placeable items)
  (hspell : ∀ item ∈ items, CanSpell (moduleName item.name))

include hitems in
theorem isPart_of_mem_paths {folder : List String} (h : folder ∈ Folder.paths items) :
    ∀ s ∈ folder, Path.IsPart s := by
  rcases Folder.mem_paths_iff.mp h with rfl | ⟨item, hitem, hway⟩
  · exact List.forall_mem_nil _
  · exact fun s hs => Path.isPart_of_isIdentifier (hitems.isName item hitem s (hway.subset hs)).1

include hspell in
theorem isPart_moduleName {item : Model} (hitem : item ∈ items) :
    Path.IsPart (moduleName item.name) :=
  Path.isPart_of_isIdentifier
    ((canSpell_iff_of_not_mem (not_mem_moduleName item.name)).mp (hspell item hitem))

include hitems hspell

theorem filePath_eq_itemFilePath {folder : List String} {stem : String}
    (hfolder : ∀ s ∈ folder, Path.IsPart s) (hstem : Path.IsPart stem) {item : Model}
    (hitem : item ∈ items) :
    filePath folder stem = itemFilePath item ↔ folder = item.folder ∧ stem = moduleName item.name :=
  filePath_inj hfolder hstem (isPart_of_mem_paths hitems (Folder.mem_paths hitem))
    (isPart_moduleName hspell hitem)

/-- No item has the file of an index. -/
theorem indexPath_ne_itemFilePath {folder : List String} (hfolder : ∀ s ∈ folder, Path.IsPart s)
    {item : Model} (hitem : item ∈ items) : indexPath folder ≠ itemFilePath item := by
  intro h
  obtain ⟨rfl, _⟩ := (filePath_eq_itemFilePath hitems hspell hfolder isPart_mod hitem).mp h
  exact hitems.not_index item hitem h.symm

end

/-! ## The tree -/

/-- A file is reached if it is the index at the root, or that of a module that an index declares
which is reached. -/
inductive Reached (indexes : List ModuleIndex) (files : List String) : String → Prop
  | root : Reached indexes files (indexPath [])
  | declared {index : ModuleIndex} {isPublic : Bool} {i : Ident} {path : String} :
      index ∈ indexes → Reached indexes files (indexPath index.folder) →
        .module isPublic i ∈ index.file.items → path ∈ moduleFiles index.folder i → path ∈ files →
          Reached indexes files path

/-- The indexes of a client, one for each folder, lead from the root to all files. -/
structure IsModuleTree (home : Namespace) (items : List Model) (generated : List GeneratedFile)
    (indexes : List ModuleIndex) : Prop where
  written : generated = indexes.map ModuleIndex.written
  nodup : (indexes.map (·.folder)).Nodup
  mem_folders : ∀ folder, folder ∈ indexes.map (·.folder) ↔
    folder = [] ∨ ∃ item ∈ items, folder <+: item.folder
  declares : ∀ index ∈ indexes, ∃ children members exports,
    Declares items index.folder index.file.items children members exports
  /-- The files of items are among those of the tree. -/
  rendered : ∀ item ∈ items, ∀ file, render home item = .ok file →
    file.path ∈ treeFiles items generated
  nodup_files : (treeFiles items generated).Nodup
  reached : ∀ path ∈ treeFiles items generated, Reached indexes (treeFiles items generated) path
  /-- A module that is declared has one file. -/
  has_file : ∀ index ∈ indexes, ∀ isPublic i, .module isPublic i ∈ index.file.items →
    ∃! path, path ∈ moduleFiles index.folder i ∧ path ∈ treeFiles items generated

section

variable {items : List Model} {indexes : List ModuleIndex}
  (hfolders : indexes.map (·.folder) = Folder.paths items)

include hfolders in
theorem treeFiles_eq : treeFiles items (indexes.map ModuleIndex.written) =
    items.map itemFilePath ++ (Folder.paths items).map indexPath := by
  rw [treeFiles, ← hfolders, List.map_map, List.map_map]
  rfl

include hfolders in
theorem exists_index_of_mem {folder : List String} (h : folder ∈ Folder.paths items) :
    ∃ index ∈ indexes, index.folder = folder := by
  rw [← hfolders] at h
  exact List.mem_map.mp h

variable (hitems : Placeable items) (hspell : ∀ item ∈ items, CanSpell (moduleName item.name))

include hitems hspell in
theorem nodup_treeFiles :
    (items.map itemFilePath ++ (Folder.paths items).map indexPath).Nodup := by
  refine List.nodup_append.mpr ⟨hitems.distinct, ?_, fun path hpath path' hpath' e => ?_⟩
  · refine (Folder.nodup_paths items).map_on fun folder hf folder' hf' h => ?_
    exact ((filePath_inj (isPart_of_mem_paths hitems hf) isPart_mod
      (isPart_of_mem_paths hitems hf') isPart_mod).mp h).1
  · obtain ⟨item, hitem, rfl⟩ := List.mem_map.mp hpath
    obtain ⟨folder, hf, rfl⟩ := List.mem_map.mp hpath'
    exact indexPath_ne_itemFilePath hitems hspell (isPart_of_mem_paths hitems hf) hitem e.symm

variable (hdeclares : ∀ index ∈ indexes, ∃ children members exports,
  Declares items index.folder index.file.items children members exports)

include hfolders hdeclares in
/-- Declarations lead to every folder. -/
theorem reached_indexPath {files : List String}
    (hfiles : ∀ folder ∈ Folder.paths items, indexPath folder ∈ files) {folder : List String}
    (h : folder ∈ Folder.paths items) : Reached indexes files (indexPath folder) := by
  induction folder using List.reverseRecOn with
  | nil => exact .root
  | append_singleton folder child ih =>
      obtain ⟨item, hitem, hchild⟩ :=
        (Folder.mem_paths_iff.mp h).resolve_left (List.append_ne_nil_of_right_ne_nil _ (by simp))
      have houter : folder ∈ Folder.paths items :=
        Folder.mem_paths_iff.mpr (Or.inr ⟨item, hitem, (List.prefix_append _ _).trans hchild⟩)
      obtain ⟨index, hindex, rfl⟩ := exists_index_of_mem hfolders houter
      obtain ⟨_, _, _, hdeclared⟩ := hdeclares index hindex
      exact .declared hindex (ih houter) (hdeclared.module_child hitem hchild)
        (List.mem_cons_of_mem _ (List.mem_singleton_self _)) (hfiles _ h)

include hfolders hdeclares in
theorem reached_itemFilePath {files : List String}
    (hfiles : ∀ folder ∈ Folder.paths items, indexPath folder ∈ files) {item : Model}
    (hitem : item ∈ items) (hfile : itemFilePath item ∈ files) :
    Reached indexes files (itemFilePath item) := by
  have hfolder := Folder.mem_paths hitem
  obtain ⟨index, hindex, hplace⟩ := exists_index_of_mem hfolders hfolder
  obtain ⟨_, _, _, hdeclared⟩ := hdeclares index hindex
  obtain ⟨stem, hstem, hname⟩ := hdeclared.exists_module_item hitem hplace.symm
  refine .declared hindex ?_ hstem ?_ hfile
  · rw [hplace]
    exact reached_indexPath hfolders hdeclares hfiles hfolder
  · rw [moduleFiles, hname, hplace]
    exact List.mem_cons_self

include hitems hspell in
/-- No file of a folder is named for a folder beside it. -/
theorem filePath_not_mem {folder : List String} {child : String} {item : Model}
    (hitem : item ∈ items) (h : folder ++ [child] <+: item.folder) :
    filePath folder child ∉ items.map itemFilePath ++ (Folder.paths items).map indexPath := by
  have hparts : ∀ s ∈ folder ++ [child], Path.IsPart s := fun s hs =>
    Path.isPart_of_isIdentifier (hitems.isName item hitem s (h.subset hs)).1
  obtain ⟨hfolder, hchild⟩ := List.forall_mem_append.mp hparts
  have hchild := hchild child (List.mem_singleton_self child)
  intro hmem
  rcases List.mem_append.mp hmem with hmem | hmem
  · obtain ⟨item', hitem', e⟩ := List.mem_map.mp hmem
    obtain ⟨hplace, hname⟩ :=
      (filePath_eq_itemFilePath hitems hspell hfolder hchild hitem').mp e.symm
    rw [hplace, hname] at h
    exact hitems.beside item' hitem' item hitem h
  · obtain ⟨folder', hf', e⟩ := List.mem_map.mp hmem
    obtain ⟨_, rfl⟩ :=
      (filePath_inj (isPart_of_mem_paths hitems hf') isPart_mod hfolder hchild).mp e
    exact absurd (hitems.isName item hitem "mod" (h.subset (by simp))).2.1 (by decide)

include hitems hspell in
/-- No folder is named for an item beside it. -/
theorem indexPath_not_mem {item : Model} (hitem : item ∈ items) :
    indexPath (item.folder ++ [moduleName item.name]) ∉
      items.map itemFilePath ++ (Folder.paths items).map indexPath := by
  have hparts : ∀ s ∈ item.folder ++ [moduleName item.name], Path.IsPart s :=
    List.forall_mem_append.mpr ⟨isPart_of_mem_paths hitems (Folder.mem_paths hitem),
      List.forall_mem_singleton.mpr (isPart_moduleName hspell hitem)⟩
  intro hmem
  rcases List.mem_append.mp hmem with hmem | hmem
  · obtain ⟨item', hitem', e⟩ := List.mem_map.mp hmem
    exact indexPath_ne_itemFilePath hitems hspell hparts hitem' e.symm
  · obtain ⟨folder, hf, e⟩ := List.mem_map.mp hmem
    obtain ⟨rfl, _⟩ :=
      (filePath_inj (isPart_of_mem_paths hitems hf) isPart_mod hparts isPart_mod).mp e
    obtain ⟨item', hitem', hway⟩ :=
      (Folder.mem_paths_iff.mp hf).resolve_left (List.append_ne_nil_of_right_ne_nil _ (by simp))
    exact hitems.beside item hitem item' hitem' hway

include hitems hspell in
theorem existsUnique_moduleFile {index : ModuleIndex} {children : List String}
    {members : List Model} {exports : List Export}
    (h : Declares items index.folder index.file.items children members exports) {isPublic : Bool}
    {i : Ident} (hi : .module isPublic i ∈ index.file.items) :
    ∃! path, path ∈ moduleFiles index.folder i ∧
      path ∈ items.map itemFilePath ++ (Folder.paths items).map indexPath := by
  rcases h.module_cases hi with ⟨item, hitem, hchild⟩ | ⟨item, hitem, hfolder, hname⟩
  · have hinner : index.folder ++ [i.name] ∈ Folder.paths items :=
      Folder.mem_paths_iff.mpr (Or.inr ⟨item, hitem, hchild⟩)
    refine ⟨indexPath (index.folder ++ [i.name]), ⟨by simp [moduleFiles],
      List.mem_append_right _ (List.mem_map_of_mem hinner)⟩, fun path ⟨hpath, hmem⟩ => ?_⟩
    rcases List.mem_cons.mp hpath with rfl | hpath
    · exact absurd hmem (filePath_not_mem hitems hspell hitem hchild)
    · exact List.mem_singleton.mp hpath
  · rw [moduleFiles, ← hfolder, hname]
    refine ⟨itemFilePath item, ⟨List.mem_cons_self,
      List.mem_append_left _ (List.mem_map_of_mem hitem)⟩, fun path ⟨hpath, hmem⟩ => ?_⟩
    rcases List.mem_cons.mp hpath with hpath | hpath
    · exact hpath
    · rw [List.mem_singleton.mp hpath] at hmem
      exact absurd hmem (indexPath_not_mem hitems hspell hitem)

end

/-- Items at the root, in a folder, and in one within a folder that holds none. -/
def shelves : List Model :=
  [([], "Library"), (["types"], "Type"), (["types"], "Self_"), (["api", "v1"], "BookQuery")].map
    fun (folder, name) => ⟨folder, name, name, none, .of [] [], .customScalar⟩

end Graphwright.Rust
