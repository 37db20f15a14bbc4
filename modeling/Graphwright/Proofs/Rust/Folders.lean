import Graphwright.Proofs.Entries
import Graphwright.Proofs.Text.Identifiers
import Graphwright.Rust.ModuleIndex
import Mathlib.Data.List.Lex
import Mathlib.Data.List.Perm.Basic

/-!
# Folders of a client

The folders of a client are the root and all that hold an item, near or far, each listed once. A
folder lists each folder in it and each item in it once. The path of a file tells the folder and the
name of the file.
-/
namespace Graphwright

/-! ## Paths of files -/

namespace Path

/-- A text that can stand between two slashes. -/
structure IsPart (text : String) : Prop where
  ne_nil : text.toList ≠ []
  not_mem : '/' ∉ text.toList

theorem isPart_of_isIdentifier {text : String} (h : Text.isIdentifier text.toList = true) :
    IsPart text where
  ne_nil e := by
    rw [e] at h
    cases h
  not_mem := Text.not_mem_of_isIdentifier h (by decide)

theorem IsPart.append {text rest : String} (h : IsPart text) (hrest : '/' ∉ rest.toList) :
    IsPart (text ++ rest) where
  ne_nil := by
    rw [String.toList_append]
    exact List.append_ne_nil_of_left_ne_nil h.ne_nil _
  not_mem := by
    rw [String.toList_append, List.mem_append]
    exact fun hmem => hmem.elim h.not_mem hrest

theorem IsPart.join_eq {text : String} (h : IsPart text) (base : String) :
    join base text =
      if base = "" ∨ base.toList.getLast? = some '/' then base ++ text
      else base ++ "/" ++ text := by
  refine if_neg fun habsolute => h.not_mem ?_
  exact List.mem_of_mem_head? (of_decide_eq_true habsolute)

variable {names names' : List String} {last last' : String}

/-- Each name is written with a slash behind it. -/
theorem toList_join_ofNames (hnames : ∀ n ∈ names, IsPart n) (hlast : IsPart last) :
    (join (ofNames names) last).toList =
      names.flatMap (fun n => n.toList ++ ['/']) ++ last.toList := by
  induction names using List.reverseRecOn generalizing last with
  | nil =>
      rw [ofNames, List.foldl_nil, hlast.join_eq, if_pos (Or.inl rfl)]
      simp
  | append_singleton names n ih =>
      obtain ⟨hnames, hn⟩ := List.forall_mem_append.mp hnames
      have hn := hn n (List.mem_singleton_self n)
      have hbase := ih hnames hn
      rw [ofNames, List.foldl_concat, ← ofNames, hlast.join_eq, if_neg]
      · simp [String.toList_append, hbase]
      · -- The folder's text ends as its last name does.
        rintro (hempty | hslash)
        · rw [hempty] at hbase
          exact hn.ne_nil (List.append_eq_nil_iff.mp hbase.symm).2
        · rw [hbase, List.getLast?_append_of_ne_nil _ hn.ne_nil] at hslash
          exact hn.not_mem (List.mem_of_getLast? hslash)

/-- Between the slashes of a path stand its names. -/
theorem pieces_join_ofNames (hnames : ∀ n ∈ names, IsPart n) (hlast : IsPart last) :
    pieces (join (ofNames names) last) = names ++ [last] := by
  have huncut : ∀ {text : String}, IsPart text → ∀ c ∈ text.toList, decide (c = '/') = false :=
    fun htext c hc => decide_eq_false fun e => htext.not_mem (e ▸ hc)
  rw [pieces, toList_join_ofNames hnames hlast]
  induction names with
  | nil =>
      rw [List.flatMap_nil, List.nil_append, Text.splitWhere_of_forall (huncut hlast)]
      simp
  | cons n names ih =>
      obtain ⟨hn, hnames⟩ := List.forall_mem_cons.mp hnames
      rw [List.flatMap_cons, List.append_assoc, List.append_assoc, List.singleton_append,
        Text.splitWhere_append_cons (huncut hn) (decide_eq_true rfl), List.map_cons, ih hnames,
        String.ofList_toList, List.cons_append]

/-- A path tells the names that lead to it. -/
theorem join_ofNames_inj (hnames : ∀ n ∈ names, IsPart n) (hlast : IsPart last)
    (hnames' : ∀ n ∈ names', IsPart n) (hlast' : IsPart last') :
    join (ofNames names) last = join (ofNames names') last' ↔ names = names' ∧ last = last' := by
  refine ⟨fun h => ?_, fun ⟨hn, hl⟩ => by rw [hn, hl]⟩
  have hpieces := congrArg pieces h
  rw [pieces_join_ofNames hnames hlast, pieces_join_ofNames hnames' hlast'] at hpieces
  obtain ⟨hn, hl⟩ := List.append_inj' hpieces rfl
  exact ⟨hn, List.singleton_inj.mp hl⟩

end Path

namespace Rust

open Code (Model)

namespace Folder

/-! ## The table of folders -/

theorem before_iff {a b : List String} : before a b = true ↔ a < b := by
  induction a generalizing b with
  | nil => cases b <;> simp [before]
  | cons s a ih =>
      cases b with
      | nil => simp [before]
      | cons t b => simp [before, List.cons_lt_cons_iff, ih]

theorem path_addItem (item : Model) (folder : Folder) :
    (addItem item folder).path = folder.path := rfl

theorem path_addChild (child : String) (folder : Folder) :
    (addChild child folder).path = folder.path := rfl

/-- The folders of a table stand in order of their paths. -/
def Ordered (folders : List Folder) : Prop := folders.Pairwise (·.path < ·.path)

theorem ordered_iff {folders : List Folder} :
    Ordered folders ↔ (folders.map (·.path)).Pairwise (before · ·) := by
  simp only [Ordered, List.pairwise_map, before_iff]

/-- The folder of a table at a path; an empty one if there is none. -/
def lookup (path : List String) (folders : List Folder) : Folder :=
  (folders.find? (·.path = path)).getD (empty path)

theorem lookup_cons (path : List String) (folder : Folder) (folders : List Folder) :
    lookup path (folder :: folders) =
      if folder.path = path then folder else lookup path folders := by
  rw [lookup, List.find?_cons]
  by_cases h : folder.path = path <;> simp [h, lookup]

theorem lookup_of_not_mem {path : List String} {folders : List Folder}
    (h : ∀ folder ∈ folders, folder.path ≠ path) : lookup path folders = empty path := by
  rw [lookup, List.find?_eq_none.mpr (by simpa using h), Option.getD_none]

theorem path_lookup (path : List String) (folders : List Folder) :
    (lookup path folders).path = path := by
  induction folders with
  | nil => rfl
  | cons folder folders ih =>
      rw [lookup_cons]
      split
      · assumption
      · exact ih

theorem Ordered.lookup_of_mem {folders : List Folder} (h : Ordered folders) {folder : Folder}
    (hmem : folder ∈ folders) : lookup folder.path folders = folder := by
  induction folders with
  | nil => cases hmem
  | cons first folders ih =>
      obtain ⟨hfirst, hrest⟩ := List.pairwise_cons.mp h
      rw [lookup_cons]
      rcases List.mem_cons.mp hmem with rfl | hmem
      · exact if_pos rfl
      · rw [if_neg (hfirst folder hmem).ne, ih hrest hmem]

section

variable {f : Folder → Folder} (hf : ∀ folder, (f folder).path = folder.path) (path : List String)

include hf

theorem paths_change (folders : List Folder) : (change path f folders).map (·.path) =
    Entries.insertKey before path (folders.map (·.path)) := by
  induction folders with
  | nil => simp [change, Entries.insertKey, hf, empty]
  | cons folder folders ih =>
      rw [change, List.map_cons, Entries.insertKey]
      split
      · rw [List.map_cons, hf]
      · split
        · rw [List.map_cons, List.map_cons, hf, empty]
        · rw [List.map_cons, ih]

theorem mem_paths_change {folders : List Folder} {p : List String} :
    p ∈ (change path f folders).map (·.path) ↔ p = path ∨ p ∈ folders.map (·.path) := by
  rw [paths_change hf, Entries.mem_insertKey]

theorem Ordered.change {folders : List Folder} (h : Ordered folders) :
    Ordered (Folder.change path f folders) := by
  rw [ordered_iff, paths_change hf]
  refine Entries.pairwise_insertKey ?_ ?_ (ordered_iff.mp h)
  · simp only [before_iff]
    exact fun _ _ _ => lt_trans
  · simp only [before_iff]
    exact fun _ _ => lt_or_gt_of_ne

/-- Only the folder at the path is changed. -/
theorem Ordered.lookup_change {folders : List Folder} (h : Ordered folders) (p : List String) :
    lookup p (Folder.change path f folders) =
      if p = path then f (lookup path folders) else lookup p folders := by
  have hempty : (f (empty path)).path = path := hf _
  induction folders with
  | nil =>
      rw [Folder.change, lookup_cons, hempty]
      simp only [eq_comm (a := path)]
      rfl
  | cons folder folders ih =>
      obtain ⟨hfolder, hrest⟩ := List.pairwise_cons.mp h
      rw [Folder.change]
      by_cases heq : folder.path = path
      · rw [if_pos heq, lookup_cons, lookup_cons, lookup_cons, hf, heq, if_pos rfl]
        simp only [eq_comm (a := path)]
        split <;> rfl
      · by_cases hlt : before path folder.path = true
        · rw [if_neg heq, if_pos hlt, lookup_cons, hempty]
          have hlt := before_iff.mp hlt
          have hnew : lookup path (folder :: folders) = empty path :=
            lookup_of_not_mem (List.forall_mem_cons.mpr
              ⟨heq, fun other hother => (hlt.trans (hfolder other hother)).ne'⟩)
          rw [hnew]
          simp only [eq_comm (a := path)]
        · rw [if_neg heq, if_neg hlt, lookup_cons, lookup_cons, lookup_cons, if_neg heq, ih hrest]
          by_cases hp : p = path
          · rw [if_pos hp, if_pos hp, if_neg (hp ▸ heq)]
          · rw [if_neg hp, if_neg hp]

end

/-! ## One item -/

/-- The name that leads on from a path on the way to a folder. -/
def next? : List String → List String → Option String
  | [], child :: _ => some child
  | s :: path, t :: folder => if s = t then next? path folder else none
  | _, [] => none

theorem next?_eq_some_iff {path folder : List String} {child : String} :
    next? path folder = some child ↔ path ++ [child] <+: folder := by
  induction path generalizing folder with
  | nil => cases folder <;> simp [next?, eq_comm]
  | cons s path ih =>
      cases folder with
      | nil => simp [next?]
      | cons t folder =>
          rw [next?, List.cons_append, List.cons_prefix_cons]
          by_cases h : s = t <;> simp [h, ih]

/-- The way to a folder ends there. -/
theorem next?_self (folder : List String) : next? folder folder = none := by
  rw [Option.eq_none_iff_forall_ne_some]
  intro child hchild
  have hlength := (next?_eq_some_iff.mp hchild).length_le
  simp at hlength

section

variable {folders : List Folder}

theorem Ordered.addWay (h : Ordered folders) (outer way : List String) :
    Ordered (Folder.addWay outer way folders) := by
  induction way generalizing outer folders with
  | nil => exact h
  | cons child way ih => exact ih (h.change (path_addChild child) outer) (outer ++ [child])

theorem mem_paths_addWay (outer way : List String) {p : List String} :
    p ∈ (Folder.addWay outer way folders).map (·.path) ↔
      p ∈ folders.map (·.path) ∨ ∃ q child, q ++ [child] <+: way ∧ p = outer ++ q := by
  induction way generalizing outer folders with
  | nil => simp [Folder.addWay]
  | cons child way ih =>
      rw [Folder.addWay, ih, mem_paths_change (path_addChild child), or_assoc, or_left_comm]
      refine or_congr_right ⟨?_, ?_⟩
      · rintro (rfl | ⟨q, last, hq, rfl⟩)
        · exact ⟨[], child, by simp, by simp⟩
        · exact ⟨child :: q, last, by simpa using hq, by simp⟩
      · rintro ⟨q, last, hq, rfl⟩
        cases q with
        | nil => exact .inl (List.append_nil outer)
        | cons s q =>
            obtain ⟨rfl, hrest⟩ := List.cons_prefix_cons.mp hq
            exact .inr ⟨q, last, hrest, by simp⟩

/-- Only folders below `outer` are changed on the way on from it. -/
theorem Ordered.lookup_addWay_of_not_prefix (h : Ordered folders) {outer way p : List String}
    (hp : ¬ outer <+: p) : lookup p (Folder.addWay outer way folders) = lookup p folders := by
  induction way generalizing outer folders with
  | nil => rfl
  | cons child way ih =>
      rw [Folder.addWay, ih (h.change (path_addChild child) outer)
          fun hpre => hp ((List.prefix_append _ _).trans hpre),
        h.lookup_change (path_addChild child), if_neg]
      rintro rfl
      exact hp List.prefix_rfl

/-- Each folder on the way lists the next one. -/
theorem Ordered.lookup_addWay (h : Ordered folders) (outer way path : List String) :
    lookup (outer ++ path) (Folder.addWay outer way folders) =
      (next? path way).elim (lookup (outer ++ path) folders)
        (addChild · (lookup (outer ++ path) folders)) := by
  induction way generalizing outer path folders with
  | nil => cases path <;> rfl
  | cons child way ih =>
      have hchange := h.change (path_addChild child) outer
      have hlookup := h.lookup_change (path_addChild child) outer
      rw [Folder.addWay]
      cases path with
      | nil =>
          rw [hchange.lookup_addWay_of_not_prefix, hlookup]
          · simp [next?]
          · exact fun hpre => absurd hpre.length_le (by simp)
      | cons s path =>
          have hother : lookup (outer ++ s :: path) (Folder.change outer (addChild child) folders) =
              lookup (outer ++ s :: path) folders := by
            rw [hlookup, if_neg (by simp)]
          by_cases hs : s = child
          · subst hs
            have hway := ih hchange (outer ++ [s]) path
            rw [List.append_assoc, List.singleton_append, hother] at hway
            rw [hway, next?, if_pos rfl]
          · rw [hchange.lookup_addWay_of_not_prefix, hother, next?, if_neg hs, Option.elim_none]
            simp [Ne.symm hs]

theorem Ordered.enter (h : Ordered folders) (item : Model) : Ordered (Folder.enter folders item) :=
  (h.change (path_addItem item) item.folder).addWay [] item.folder

theorem mem_paths_enter {item : Model} {p : List String} :
    p ∈ (Folder.enter folders item).map (·.path) ↔
      p ∈ folders.map (·.path) ∨ p <+: item.folder := by
  rw [Folder.enter, mem_paths_addWay, mem_paths_change (path_addItem item), or_comm (a := p = _),
    or_assoc]
  refine or_congr_right ⟨?_, fun hp => ?_⟩
  · rintro (rfl | ⟨q, child, hq, rfl⟩)
    · exact List.prefix_rfl
    · exact (List.prefix_append _ _).trans hq
  · obtain ⟨rest, hrest⟩ := hp
    cases rest with
    | nil => exact .inl (by rw [← hrest, List.append_nil])
    | cons child rest => exact .inr ⟨p, child, ⟨rest, by simpa using hrest⟩, rfl⟩

/-- The item is listed in its folder, and each folder on the way to it in the one around it. -/
theorem Ordered.lookup_enter (h : Ordered folders) (item : Model) (path : List String) :
    lookup path (Folder.enter folders item) =
      (next? path item.folder).elim
        (if path = item.folder then addItem item (lookup path folders) else lookup path folders)
        (addChild · (lookup path folders)) := by
  have hentered := (h.change (path_addItem item) item.folder).lookup_addWay [] item.folder path
  rw [List.nil_append, h.lookup_change (path_addItem item)] at hentered
  rw [Folder.enter, hentered]
  by_cases hp : path = item.folder
  · rw [hp, next?_self]
    rfl
  · simp [hp]

end

/-! ## All items -/

/-- The paths of the folders. -/
def paths (items : List Model) : List (List String) := (all items).map (·.path)

/-- The folder at a path. -/
def ofItems (items : List Model) (path : List String) : Folder := lookup path (all items)

theorem all_concat (items : List Model) (item : Model) :
    all (items ++ [item]) = enter (all items) item := List.foldl_concat ..

theorem ordered_all (items : List Model) : Ordered (all items) := by
  induction items using List.reverseRecOn with
  | nil => exact List.pairwise_singleton _ _
  | append_singleton items item ih =>
      rw [all_concat]
      exact ih.enter item

/-- The folders are listed in ascending order. -/
theorem pairwise_paths (items : List Model) : (paths items).Pairwise (· < ·) :=
  List.pairwise_map.mpr (ordered_all items)

theorem nodup_paths (items : List Model) : (paths items).Nodup :=
  (pairwise_paths items).imp fun h => h.ne

/-- The folders are the root and those on the way to an item. -/
theorem mem_paths_iff {items : List Model} {folder : List String} :
    folder ∈ paths items ↔ folder = [] ∨ ∃ item ∈ items, folder <+: item.folder := by
  induction items using List.reverseRecOn with
  | nil => simp [paths, all, empty]
  | append_singleton items item ih =>
      rw [paths, all_concat, mem_paths_enter, ← paths, ih, or_assoc]
      simp [or_and_right, exists_or]

theorem mem_paths {items : List Model} {item : Model} (h : item ∈ items) :
    item.folder ∈ paths items :=
  mem_paths_iff.mpr (Or.inr ⟨item, h, List.prefix_rfl⟩)

/-- The table has the folder of each of its paths, and nothing else. -/
theorem all_eq (items : List Model) : all items = (paths items).map (ofItems items) := by
  rw [paths, List.map_map]
  conv_lhs => rw [← List.map_id (all items)]
  exact List.map_congr_left fun folder hfolder => ((ordered_all items).lookup_of_mem hfolder).symm

theorem path_ofItems (items : List Model) (path : List String) : (ofItems items path).path = path :=
  path_lookup path (all items)

/-- A folder lists, in order, the names that lead on from it to an item. -/
theorem children_ofItems (items : List Model) (path : List String) :
    (ofItems items path).children =
      Entries.sortedNames (items.filterMap fun item => next? path item.folder) := by
  induction items using List.reverseRecOn with
  | nil =>
      rw [ofItems, all, List.foldl_nil, lookup_cons]
      split <;> rfl
  | append_singleton items item ih =>
      rw [ofItems, all_concat, (ordered_all items).lookup_enter, ← ofItems, List.filterMap_append]
      cases hnext : next? path item.folder with
      | none =>
          have hsame : (if path = item.folder then addItem item (ofItems items path)
              else ofItems items path).children = (ofItems items path).children := by
            split <;> rfl
          simp [hnext, hsame, ih]
      | some child =>
          simp [hnext, addChild, ih, Entries.sortedNames]

/-- A folder lists, in order of their modules, the items in it. -/
theorem items_ofItems (items : List Model) (path : List String) :
    (ofItems items path).items = Entries.sorted ((items.filter (·.folder = path)).map fun item =>
      (moduleName item.name, item.name)) := by
  induction items using List.reverseRecOn with
  | nil =>
      rw [ofItems, all, List.foldl_nil, lookup_cons]
      split <;> rfl
  | append_singleton items item ih =>
      rw [ofItems, all_concat, (ordered_all items).lookup_enter, ← ofItems, List.filter_append,
        List.map_append]
      cases hnext : next? path item.folder with
      | none =>
          by_cases hp : path = item.folder
          · subst hp
            simp [addItem, ih, Entries.sorted]
          · simp [hp, Ne.symm hp, ih]
      | some child =>
          have hp : item.folder ≠ path := by
            rintro rfl
            rw [next?_self] at hnext
            cases hnext
          simp [hp, addChild, ih]

/-! ## What a folder lists -/

variable {items : List Model} {path : List String}

theorem mem_children {child : String} : child ∈ (ofItems items path).children ↔
    ∃ item ∈ items, path ++ [child] <+: item.folder := by
  rw [children_ofItems, Entries.mem_sortedNames, List.mem_filterMap]
  simp only [next?_eq_some_iff]

theorem nodup_children (items : List Model) (path : List String) :
    (ofItems items path).children.Nodup := by
  rw [children_ofItems]
  exact (Entries.pairwise_sortedNames _).imp fun h => h.ne

/-- If the items have files of their own, the folder lists each item in it once. -/
theorem exists_members (hfiles : (items.map itemFilePath).Nodup) (path : List String) :
    ∃ members : List Model, members.Perm (items.filter (·.folder = path)) ∧
      (ofItems items path).items = members.map fun item => (moduleName item.name, item.name) := by
  have hmodules : (((items.filter (·.folder = path)).map fun item =>
      (moduleName item.name, item.name)).map (·.1)).Nodup := by
    rw [List.map_map, List.Nodup, List.pairwise_map, List.pairwise_filter]
    refine (List.pairwise_map.mp hfiles).imp fun {m m'} hne hm hm' hmodule => hne ?_
    dsimp only [Function.comp_apply] at hmodule
    rw [itemFilePath, itemFilePath, of_decide_eq_true hm, of_decide_eq_true hm', hmodule]
  have hperm : (ofItems items path).items.Perm ((items.filter (·.folder = path)).map fun item =>
      (moduleName item.name, item.name)) := by
    rw [items_ofItems]
    refine (List.perm_ext_iff_of_nodup ?_ hmodules.of_map).mpr fun e => Entries.mem_sorted ?_
    · exact (Entries.pairwise_sorted _).imp fun h e => h.ne (congrArg Prod.fst e)
    · exact fun a ha b hb h => List.inj_on_of_nodup_map hmodules ha hb h
  obtain ⟨members, heq, hmembers⟩ := (congrFun₂ (List.eq_map_comp_perm
    fun item : Model => (moduleName item.name, item.name)) _ _).mpr hperm
  exact ⟨members, hmembers, heq⟩

end Folder

/-- Each folder has its index. -/
theorem renderModules_eq (home : Namespace) (items : List Model) : renderModules home items =
    (Folder.paths items).mapM fun path => (Folder.ofItems items path).index home := by
  rw [renderModules, Folder.all_eq, List.mapM_map]
  rfl

end Rust

end Graphwright
