import Graphwright.Proofs.Files.Collisions
import Graphwright.Proofs.Files.Paths
import Graphwright.Proofs.Files.Rollback
import Graphwright.Proofs.Files.Walks

/-!
# When a batch of files can be written

A file can be written if no directory stands at its place and no file on the way to it. In a batch
each file that is written puts directories on its way and a file at its place, and these can be in
the way of the files behind it. All can be written exactly if no place of a file is a directory or
on the way to a file of the batch, and no file stands on the way to one. The order has no part in
that.
-/
namespace Graphwright

namespace Tree

variable {tree tree' : Tree} {path content : String} {here place : Place}

/-! ## One file -/

/-- Nothing stands in the way of a file: no directory at its place, neither before nor once the
directories on the way are made, and no file on the way. -/
structure CanWrite (tree : Tree) (path : String) (place : Place) : Prop where
  notFolder : tree.node? place ≠ some .folder
  notAncestor : ¬ tree.IsAncestor path place
  clear : ∀ p content, tree.IsAncestor path p → tree.node? p ≠ some (.file content)

/-- The second tree is the first one after a file has been written at a place. -/
structure Written (tree : Tree) (path content : String) (place : Place) (tree' : Tree) : Prop where
  working : tree'.working = tree.working
  wellFormed : tree'.WellFormed
  file : tree'.node? place = some (.file content)
  ancestor : ∀ p, tree.IsAncestor path p → tree'.node? p = some .folder
  other : ∀ p, p ≠ place → ¬ tree.IsAncestor path p → tree'.node? p = tree.node? p

/-- A file is put where no directory stands once those on the way are there. -/
theorem written_put {made : Tree} {n : String}
    (hadds : AddsFolders (tree.IsAncestor path) tree made) (hmade : made.WellFormed)
    (hhere : made.node? here = some .folder)
    (hfolders : ∀ p, tree.IsAncestor path p → made.node? p = some .folder)
    (hplace : made.node? (here ++ [n]) ≠ some .folder) :
    tree.Written path content (here ++ [n]) (made.put (here ++ [n]) (.file content)) := by
  have hput : ∀ p, (made.put (here ++ [n]) (.file content)).node? p =
      if p = here ++ [n] then some (.file content) else made.node? p :=
    fun p => node?_put (by simp) _
  refine ⟨hadds.working, hmade.put hhere fun h => absurd h hplace, (hput _).trans (if_pos rfl),
    fun p hp => ?_, fun p hne hp => ?_⟩
  · have hne : p ≠ here ++ [n] := fun e => hplace (e ▸ hfolders p hp)
    rw [hput, if_neg hne, hfolders p hp]
  · rw [hput, if_neg hne]
    exact (hadds.node p).resolve_right fun h => hp h.2.2

section

variable {outer : List Path.Part} {n : String} (hparts : Path.parts path = outer ++ [.name n])
  (hname : fileName? path = some n)

include hparts hname

/-- A file is written exactly if nothing stands in the way. -/
theorem write_eq (hwf : tree.WellFormed)
    (hhere : outer.foldlM tree.toward? tree.start = some here) :
    tree.CanWrite path (here ++ [n]) ∧ (∃ tree' previous,
        tree.write path content = (tree', some previous) ∧
        tree.Written path content (here ++ [n]) tree') ∨
      ¬ tree.CanWrite path (here ++ [n]) ∧ ∃ tree', tree.write path content = (tree', none) := by
  have hancestor : ∀ {p}, tree.IsAncestor path p ↔ tree.Passes tree.start outer p :=
    isAncestor_iff_passes hparts
  unfold write
  rw [hparts, List.dropLast_concat, hname]
  rcases foldl_enterMaking_cases hwf hwf.start hhere with
    ⟨⟨p, old, hp, hfile⟩, hnone⟩ | ⟨made, hwalk, hmade, hadds, hfolders⟩
  · refine .inr ⟨fun h => h.clear p old (hancestor.mpr hp) hfile, ?_⟩
    rcases hmake : tree.makeFolders outer with ⟨made, there?⟩
    obtain rfl : there? = none := (congrArg Prod.snd hmake).symm.trans hnone
    exact ⟨made, rfl⟩
  · have hmake : tree.makeFolders outer = (made, some here) := hwalk
    have hhome : made.node? here = some .folder := hfolders here ⟨outer, [], by simp, hhere⟩
    rw [hmake]
    dsimp only
    -- What stands at the place once the directories are made decides.
    split
    · rename_i hfolder
      refine .inr ⟨fun h => ?_, made, rfl⟩
      rcases hadds.node (here ++ [n]) with e | ⟨_, _, hp⟩
      · exact h.notFolder (e ▸ hfolder)
      · exact h.notAncestor (hancestor.mpr hp)
    all_goals
      rename_i hfree
      have hplace : made.node? (here ++ [n]) ≠ some .folder := by simp [hfree]
      refine .inl ⟨⟨fun h => hplace (hadds.node_eq h),
        fun h => hplace (hfolders _ (hancestor.mp h)), fun p old hp hfile => ?_⟩, _, _, rfl,
        written_put (hadds.mono fun _ => hancestor.mpr) hmade hhome
          (fun p hp => hfolders p (hancestor.mp hp)) hplace⟩
      have hstill := hadds.node_eq hfile
      rw [hfolders p (hancestor.mp hp)] at hstill
      cases hstill

/-- A file that holds its content already, behind directories that are there, is left as it is. -/
theorem write_eq_self (hhere : outer.foldlM tree.toward? tree.start = some here)
    (hfolders : ∀ p, tree.IsAncestor path p → tree.node? p = some .folder)
    (hfile : tree.node? (here ++ [n]) = some (.file content)) :
    tree.write path content = (tree, some (some content)) := by
  have hmake : tree.makeFolders outer = (tree, some here) :=
    foldl_enterMaking_eq_self hhere fun p hp => hfolders p ((isAncestor_iff_passes hparts).mpr hp)
  unfold write
  rw [hparts, List.dropLast_concat, hname, hmake]
  dsimp only
  rw [hfile]
  dsimp only
  rw [put_eq_self (by simp) hfile]

end

/-! ## A batch of files -/

/-- Nothing stands in the way of a batch: no place of a file is a directory or on the way to a file
of the batch, and no file stands on the way to one. -/
structure CanWriteAll (tree : Tree) (paths : List String) : Prop where
  notFolder : ∀ path ∈ paths, ∀ place ∈ tree.placeOf? path, tree.node? place ≠ some .folder
  notAncestor : ∀ path ∈ paths, ∀ place ∈ tree.placeOf? path, ∀ other ∈ paths,
    ¬ tree.IsAncestor other place
  clear : ∀ path ∈ paths, ∀ p content, tree.IsAncestor path p → tree.node? p ≠ some (.file content)

/-- The second tree is the first one after files with the given paths and contents have been
written. -/
structure WrittenAll (tree : Tree) (files : List (String × String)) (tree' : Tree) : Prop where
  working : tree'.working = tree.working
  wellFormed : tree'.WellFormed
  file : ∀ e ∈ files, ∀ place ∈ tree.placeOf? e.1, tree'.node? place = some (.file e.2)
  ancestor : ∀ e ∈ files, ∀ p, tree.IsAncestor e.1 p → tree'.node? p = some .folder
  other : ∀ p, (∀ e ∈ files, tree.placeOf? e.1 ≠ some p) →
    (∀ e ∈ files, ¬ tree.IsAncestor e.1 p) → tree'.node? p = tree.node? p

section

variable {tree'' : Tree} {paths : List String} {files : List (String × String)}

theorem CanWriteAll.head (h : tree.CanWriteAll (path :: paths))
    (hplace : tree.placeOf? path = some place) : tree.CanWrite path place where
  notFolder := h.notFolder path List.mem_cons_self place hplace
  notAncestor := h.notAncestor path List.mem_cons_self place hplace path List.mem_cons_self
  clear := h.clear path List.mem_cons_self

/-- Once a file is written, the rest can be written exactly if the whole could be before. -/
theorem Written.canWriteAll_iff (h : tree.Written path content place tree')
    (hplace : tree.placeOf? path = some place) (hcan : tree.CanWrite path place)
    (hdistinct : ∀ other ∈ paths, tree.placeOf? other ≠ some place) :
    tree'.CanWriteAll paths ↔ tree.CanWriteAll (path :: paths) := by
  have hplaces : ∀ other, tree'.placeOf? other = tree.placeOf? other :=
    fun other => placeOf?_congr h.working
  have hancestors : ∀ {other p}, tree'.IsAncestor other p ↔ tree.IsAncestor other p :=
    isAncestor_congr h.working
  constructor
  · intro hrest
    -- The file that is there now is in the way of what has to pass its place.
    have hpath : ∀ other ∈ paths, ¬ tree.IsAncestor other place := fun other hother hp =>
      hrest.clear other hother place content (hancestors.mpr hp) h.file
    have hbehind : ∀ other ∈ paths, ∀ p ∈ tree.placeOf? other, ¬ tree.IsAncestor path p :=
      fun other hother p hp hanc =>
        hrest.notFolder other hother p ((hplaces other).symm ▸ hp) (h.ancestor p hanc)
    refine ⟨List.forall_mem_cons.mpr ⟨fun p hp => ?_, fun other hother p hp hfolder => ?_⟩,
      List.forall_mem_cons.mpr ⟨fun p hp => ?_, fun other hother p hp => ?_⟩,
      List.forall_mem_cons.mpr ⟨hcan.clear, fun other hother p old hp hfile => ?_⟩⟩
    · cases hplace.symm.trans hp
      exact hcan.notFolder
    · have hsame := h.other p (fun e => hdistinct other hother (e ▸ hp)) (hbehind other hother p hp)
      exact hrest.notFolder other hother p ((hplaces other).symm ▸ hp) (hsame.trans hfolder)
    · cases hplace.symm.trans hp
      exact List.forall_mem_cons.mpr ⟨hcan.notAncestor, hpath⟩
    · exact List.forall_mem_cons.mpr ⟨hbehind other hother p hp, fun third hthird hanc =>
        hrest.notAncestor other hother p ((hplaces other).symm ▸ hp) third hthird
          (hancestors.mpr hanc)⟩
    · have hne : p ≠ place := fun e => hpath other hother (e ▸ hp)
      have hsame := h.other p hne fun hanc => hcan.clear p old hanc hfile
      exact hrest.clear other hother p old (hancestors.mpr hp) (hsame.trans hfile)
  · intro hall
    have hmem : ∀ {other}, other ∈ paths → other ∈ path :: paths := List.mem_cons_of_mem _
    refine ⟨fun other hother p hp hfolder => ?_, fun other hother p hp third hthird hanc => ?_,
      fun other hother p old hp hfile => ?_⟩
    · rw [hplaces] at hp
      have hne : p ≠ place := fun e => hdistinct other hother (e ▸ hp)
      have hnot := hall.notAncestor other (hmem hother) p hp path List.mem_cons_self
      exact hall.notFolder other (hmem hother) p hp ((h.other p hne hnot).symm.trans hfolder)
    · rw [hplaces] at hp
      exact hall.notAncestor other (hmem hother) p hp third (hmem hthird) (hancestors.mp hanc)
    · rw [hancestors] at hp
      have hne : p ≠ place := fun e =>
        hall.notAncestor path List.mem_cons_self place hplace other (hmem hother) (e ▸ hp)
      by_cases hanc : tree.IsAncestor path p
      · rw [h.ancestor p hanc] at hfile
        cases hfile
      · exact hall.clear other (hmem hother) p old hp ((h.other p hne hanc).symm.trans hfile)

theorem Written.writtenAll_cons (h : tree.Written path content place tree')
    (hplace : tree.placeOf? path = some place)
    (hcan : tree.CanWriteAll (path :: files.map (·.1)))
    (hdistinct : ∀ e ∈ files, tree.placeOf? e.1 ≠ some place)
    (hall : tree'.WrittenAll files tree'') : tree.WrittenAll ((path, content) :: files) tree'' := by
  have hplaces : ∀ other, tree'.placeOf? other = tree.placeOf? other :=
    fun other => placeOf?_congr h.working
  have hancestors : ∀ {other p}, tree'.IsAncestor other p ↔ tree.IsAncestor other p :=
    isAncestor_congr h.working
  have hmem : ∀ {e}, e ∈ files → e.1 ∈ path :: files.map (·.1) := fun he =>
    List.mem_cons_of_mem _ (List.mem_map_of_mem he)
  -- What is done for the first file stays: no other is put at its place or on its way.
  have hstays : ∀ p, (∀ e ∈ files, tree.placeOf? e.1 ≠ some p) →
      (∀ e ∈ files, tree.IsAncestor e.1 p → tree'.node? p = some .folder) →
      tree''.node? p = tree'.node? p := by
    intro p hp hfolder
    by_cases hpassed : ∃ e ∈ files, tree.IsAncestor e.1 p
    · obtain ⟨e, he, hanc⟩ := hpassed
      rw [hall.ancestor e he p (hancestors.mpr hanc), hfolder e he hanc]
    · exact hall.other p (fun e he => (hplaces e.1).symm ▸ hp e he)
        fun e he hanc => hpassed ⟨e, he, hancestors.mp hanc⟩
  refine ⟨hall.working.trans h.working, hall.wellFormed,
    List.forall_mem_cons.mpr ⟨fun p hp => ?_, fun e he p hp => ?_⟩,
    List.forall_mem_cons.mpr ⟨fun p hanc => ?_, fun e he p hanc => ?_⟩, fun p hp hnot => ?_⟩
  · cases hplace.symm.trans hp
    refine (hstays place hdistinct fun e he hanc => absurd hanc ?_).trans h.file
    exact hcan.notAncestor path List.mem_cons_self place hplace e.1 (hmem he)
  · exact hall.file e he p ((hplaces e.1).symm ▸ hp)
  · refine (hstays p (fun e he hp => ?_) fun _ _ _ => h.ancestor p hanc).trans (h.ancestor p hanc)
    exact hcan.notAncestor e.1 (hmem he) p hp path List.mem_cons_self hanc
  · exact hall.ancestor e he p (hancestors.mpr hanc)
  · obtain ⟨hne, hp⟩ := List.forall_mem_cons.mp hp
    obtain ⟨hnot, hnots⟩ := List.forall_mem_cons.mp hnot
    have hrest := hall.other p (fun e he => (hplaces e.1).symm ▸ hp e he)
      fun e he hanc => hnots e he (hancestors.mp hanc)
    exact hrest.trans (h.other p (fun e => hne (e ▸ hplace)) hnot)

/-- What stands at no place of a file of the batch is a directory that was missing on the way to one,
or it is as it was. -/
theorem WrittenAll.elsewhere (h : tree.WrittenAll files tree')
    (hcan : tree.CanWriteAll (files.map (·.1))) {p : Place}
    (hp : ∀ e ∈ files, tree.placeOf? e.1 ≠ some p) :
    (∀ content, tree'.node? p = some (.file content) ↔ tree.node? p = some (.file content)) ∧
      (tree'.node? p ≠ tree.node? p → tree.node? p = none ∧ tree'.node? p = some .folder ∧
        ∃ e ∈ files, tree.IsAncestor e.1 p) := by
  by_cases hanc : ∃ e ∈ files, tree.IsAncestor e.1 p
  · obtain ⟨e, he, hanc⟩ := hanc
    have hfolder := h.ancestor e he p hanc
    have hclear := hcan.clear e.1 (List.mem_map_of_mem he) p
    refine ⟨fun content => iff_of_false (by simp [hfolder]) (hclear content hanc),
      fun hne => ⟨?_, hfolder, e, he, hanc⟩⟩
    cases hnode : tree.node? p with
    | none => rfl
    | some node =>
        cases node with
        | folder => exact absurd (hfolder.trans hnode.symm) hne
        | file content => exact absurd hnode (hclear content hanc)
  · have hsame := h.other p hp fun e he hp => hanc ⟨e, he, hp⟩
    exact ⟨fun content => by rw [hsame], fun hne => absurd hsame hne⟩

end

end Tree

namespace GeneratedFile

variable {root : String} {tree tree' : Tree} {home : Place} {file : GeneratedFile}
  {files : List GeneratedFile}

/-! ## Files below a root -/

/-- The path of a file below a root. -/
def target (root : String) (file : GeneratedFile) : String := Path.join root file.path

theorem foldlM_toward?_names (here : Place) (names : List String) :
    (names.map Path.Part.name).foldlM tree.toward? here = some (here ++ names) := by
  induction names generalizing here with
  | nil => rw [List.append_nil]; rfl
  | cons n names ih =>
      rw [List.map_cons, List.foldlM_cons, List.append_cons]
      exact ih (here ++ [n])

theorem placeOf?_target (hroot : tree.placeOf? root = some home) (hplain : Path.IsPlain file.path)
    {names : List String} (hnames : Path.parts file.path = names.map .name) :
    tree.placeOf? (target root file) = some (home ++ names) := by
  rw [Tree.placeOf?, target, hplain.parts_join, List.foldlM_append, ← Tree.placeOf?, hroot, hnames]
  exact foldlM_toward?_names home names

section

variable (hroot : tree.placeOf? root = some home) (hplain : Path.IsPlain file.path)

include hroot hplain

/-- How the path of a file below a root leads to its place. -/
theorem exists_target : ∃ outer n here,
    Path.parts (target root file) = outer ++ [.name n] ∧
      Tree.fileName? (target root file) = some n ∧
      outer.foldlM tree.toward? tree.start = some here ∧
      tree.placeOf? (target root file) = some (here ++ [n]) := by
  obtain ⟨names, n, hnames, hname⟩ := hplain.exists_names
  refine ⟨Path.parts root ++ names.map .name, n, home ++ names, ?_, hname root, ?_, ?_⟩
  · rw [target, hplain.parts_join, hnames, List.map_append, List.append_assoc]
    rfl
  · rw [List.foldlM_append, ← Tree.placeOf?, hroot]
    exact foldlM_toward?_names home names
  · rw [placeOf?_target hroot hplain hnames, List.append_assoc]

/-- A file below a root is written exactly if nothing stands in the way. -/
theorem write_target (hwf : tree.WellFormed) :
    ∃ place, tree.placeOf? (target root file) = some place ∧
      (tree.CanWrite (target root file) place ∧ (∃ tree' previous,
          tree.write (target root file) file.content = (tree', some previous) ∧
          tree.Written (target root file) file.content place tree') ∨
        ¬ tree.CanWrite (target root file) place ∧
          ∃ tree', tree.write (target root file) file.content = (tree', none)) := by
  obtain ⟨outer, n, here, hparts, hname, hhere, hplace⟩ := exists_target hroot hplain
  exact ⟨here ++ [n], hplace, Tree.write_eq hparts hname hwf hhere⟩

end

/-- Files with different paths have different places. -/
theorem place_eq_of_placeOf?_target {other : GeneratedFile} (hroot : tree.placeOf? root = some home)
    (hplain : Path.IsPlain file.path) (hother : Path.IsPlain other.path)
    (h : tree.placeOf? (target root file) = tree.placeOf? (target root other)) :
    file.place = other.place := by
  obtain ⟨outer, n, hnames, _⟩ := hplain.exists_names
  obtain ⟨outer', n', hnames', _⟩ := hother.exists_names
  rw [placeOf?_target hroot hplain hnames, placeOf?_target hroot hother hnames', Option.some.injEq,
    List.append_cancel_left_eq] at h
  rw [place, place, hnames, hnames', h]

/-! ## The whole batch -/

/-- The paths of files below a root, with what they are to hold. -/
def contents (root : String) (files : List GeneratedFile) : List (String × String) :=
  files.map fun file => (target root file, file.content)

theorem map_contents (root : String) (files : List GeneratedFile) :
    (contents root files).map (·.1) = files.map (target root) := by
  rw [contents, List.map_map]
  rfl

theorem mem_contents (h : file ∈ files) :
    (target root file, file.content) ∈ contents root files := List.mem_map_of_mem h

section

variable {written : List (String × Option String)}

theorem writeFrom_nil :
    (writeFrom (m := StateM Tree) root written []).run tree =
      (.ok (written.reverse.map (·.1) ++ [].map (target root)), tree) := by
  rw [List.map_nil, List.append_nil]
  rfl

/-- A batch is written exactly if nothing stands in its way, whatever the order. -/
theorem writeFrom_cases (written : List (String × Option String)) (hwf : tree.WellFormed)
    (hroot : tree.placeOf? root = some home) (hplain : ∀ file ∈ files, Path.IsPlain file.path)
    (hdistinct : (files.map place).Nodup) :
    tree.CanWriteAll (files.map (target root)) ∧ (∃ tree',
        (writeFrom (m := StateM Tree) root written files).run tree =
          (.ok (written.reverse.map (·.1) ++ files.map (target root)), tree') ∧
        tree.WrittenAll (contents root files) tree') ∨
      ¬ tree.CanWriteAll (files.map (target root)) ∧ ∃ f tree',
        (writeFrom (m := StateM Tree) root written files).run tree = (.error f, tree') := by
  induction files generalizing tree written with
  | nil =>
      refine .inl ⟨⟨by simp, by simp, by simp⟩, tree, writeFrom_nil, ?_⟩
      exact ⟨rfl, hwf, by simp [contents], by simp [contents], fun _ _ _ => rfl⟩
  | cons file files ih =>
      obtain ⟨hfile, hplain⟩ := List.forall_mem_cons.mp hplain
      obtain ⟨hfresh, hdistinct⟩ := List.nodup_cons.mp hdistinct
      obtain ⟨place, hplace, hwrite⟩ := write_target hroot hfile hwf
      have hother : ∀ other ∈ files, tree.placeOf? (target root other) ≠ some place :=
        fun other hother e => hfresh (List.mem_map.mpr ⟨other, hother,
          place_eq_of_placeOf?_target hroot (hplain other hother) hfile (e.trans hplace.symm)⟩)
      rcases hwrite with ⟨hcan, between, previous, hwrite, hwritten⟩ | ⟨hcannot, between, hwrite⟩
      · have hiff : between.CanWriteAll (files.map (target root)) ↔
            tree.CanWriteAll (target root file :: files.map (target root)) :=
          hwritten.canWriteAll_iff hplace hcan (by simpa using hother)
        rw [writeFrom_written hwrite, List.map_cons, ← hiff]
        refine (ih _ hwritten.wellFormed ((Tree.placeOf?_congr hwritten.working).trans hroot) hplain
          hdistinct).imp_left fun ⟨hall, tree', hrun, hrest⟩ => ⟨hall, tree', ?_, ?_⟩
        · rw [hrun]
          simp [target]
        · exact hwritten.writtenAll_cons hplace (map_contents root files ▸ hiff.mp hall)
            (by simpa [contents] using hother) hrest
      · exact .inr ⟨fun hall => hcannot (hall.head hplace), _, _, writeFrom_failed hwrite⟩

/-- Files that hold their contents already are left as they are. -/
theorem writeFrom_eq_self (hroot : tree.placeOf? root = some home)
    (hplain : ∀ file ∈ files, Path.IsPlain file.path)
    (hfolders : ∀ file ∈ files, ∀ p, tree.IsAncestor (target root file) p →
      tree.node? p = some .folder)
    (hfiles : ∀ file ∈ files, ∀ p ∈ tree.placeOf? (target root file),
      tree.node? p = some (.file file.content)) :
    (writeFrom (m := StateM Tree) root written files).run tree =
      (.ok (written.reverse.map (·.1) ++ files.map (target root)), tree) := by
  induction files generalizing written with
  | nil => exact writeFrom_nil
  | cons file files ih =>
      obtain ⟨hplain, hplains⟩ := List.forall_mem_cons.mp hplain
      obtain ⟨hfolder, hfolders⟩ := List.forall_mem_cons.mp hfolders
      obtain ⟨hfile, hfiles⟩ := List.forall_mem_cons.mp hfiles
      obtain ⟨outer, n, here, hparts, hname, hhere, hplace⟩ := exists_target hroot hplain
      have hwrite := Tree.write_eq_self hparts hname hhere hfolder (hfile _ hplace)
      rw [writeFrom_written hwrite, ih hplains hfolders hfiles]
      simp [target]

end

theorem writeAll_eq_writeFrom (hdistinct : (files.map place).Nodup) :
    (writeAll (m := StateM Tree) root files).run tree =
      (writeFrom (m := StateM Tree) root [] files).run tree := by
  rw [writeAll, checkCollisions_ok.mpr hdistinct]

/-- A batch is written exactly if no place of a file is a directory or on the way to a file of the
batch, and no file stands on the way to one. Then each file holds its content, no other file is
touched, the directories that were missing on the way are made, and to write the batch again changes
nothing. -/
theorem writeAll_ok_iff_canWriteAll (hwf : tree.WellFormed) (hroot : (tree.placeOf? root).isSome)
    (hplain : ∀ file ∈ files, Path.IsPlain file.path) (hdistinct : (files.map place).Nodup) :
    ((∃ paths tree', (writeAll (m := StateM Tree) root files).run tree = (.ok paths, tree')) ↔
        tree.CanWriteAll (files.map (target root))) ∧
      ∀ paths tree', (writeAll (m := StateM Tree) root files).run tree = (.ok paths, tree') →
        paths = files.map (target root) ∧
        (∀ file ∈ files, ∃ place, tree.placeOf? (target root file) = some place ∧
          tree'.node? place = some (.file file.content)) ∧
        (∀ p, (∀ file ∈ files, tree.placeOf? (target root file) ≠ some p) →
          (∀ content, tree'.node? p = some (.file content) ↔ tree.node? p = some (.file content)) ∧
          (tree'.node? p ≠ tree.node? p → tree.node? p = none ∧ tree'.node? p = some .folder ∧
            ∃ file ∈ files, tree.IsAncestor (target root file) p)) ∧
        (∀ file ∈ files, ∀ p, tree.IsAncestor (target root file) p →
          tree'.node? p = some .folder) ∧
        (writeAll (m := StateM Tree) root files).run tree' = (.ok paths, tree') := by
  obtain ⟨home, hroot⟩ := Option.isSome_iff_exists.mp hroot
  simp only [writeAll_eq_writeFrom hdistinct]
  rcases writeFrom_cases [] hwf hroot hplain hdistinct with
    ⟨hcan, after, hrun, hall⟩ | ⟨hcannot, f, after, hrun⟩
  · refine ⟨iff_of_true ⟨_, _, hrun⟩ hcan, fun paths tree' h => ?_⟩
    obtain ⟨hpaths, rfl⟩ := Prod.mk.inj (h.symm.trans hrun)
    obtain rfl : paths = files.map (target root) := Except.ok.inj hpaths
    have hfiles : ∀ file ∈ files, ∀ p ∈ tree.placeOf? (target root file),
        tree'.node? p = some (.file file.content) := fun file hfile =>
      hall.file (target root file, file.content) (mem_contents hfile)
    have hfolders : ∀ file ∈ files, ∀ p, tree.IsAncestor (target root file) p →
        tree'.node? p = some .folder := fun file hfile =>
      hall.ancestor (target root file, file.content) (mem_contents hfile)
    refine ⟨rfl, fun file hfile => ?_, fun p hp => ?_, hfolders, ?_⟩
    · obtain ⟨_, _, _, _, _, _, hplace⟩ := exists_target hroot (hplain file hfile)
      exact ⟨_, hplace, hfiles file hfile _ hplace⟩
    · simpa [contents] using hall.elsewhere ((map_contents root files).symm ▸ hcan) (p := p)
        (by simpa [contents] using hp)
    · have hroot := (Tree.placeOf?_congr hall.working).trans hroot
      refine writeFrom_eq_self hroot hplain (fun file hfile p hp => ?_) fun file hfile p hp => ?_
      · exact hfolders file hfile p ((Tree.isAncestor_congr hall.working).mp hp)
      · exact hfiles file hfile p (Tree.placeOf?_congr hall.working ▸ hp)
  · refine ⟨iff_of_false (fun ⟨_, _, h⟩ => ?_) hcannot, fun paths tree' h => ?_⟩
    · cases hrun.symm.trans h
    · cases hrun.symm.trans h

/-- A directory for generated files, with one that is to be written again and one that is not. -/
def workspace : Tree where
  entries := [(["work"], .folder), (["work", "gen"], .folder),
    (["work", "gen", "mod"], .file "old"), (["work", "gen", "notes"], .file "kept")]
  working := some ["work"]

def rewritten : List GeneratedFile :=
  [⟨"types/user", "user", ""⟩, ⟨"mod", "new", ""⟩, ⟨"types/post", "post", ""⟩]

theorem isPlain_rewritten : ∀ file ∈ rewritten, Path.IsPlain file.path := by
  have hparts : rewritten.map place =
      [[.name "types", .name "user"], [.name "mod"], [.name "types", .name "post"]] := by decide
  have hnames : ∀ parts ∈ rewritten.map place, ∀ part ∈ parts, ∃ n, part = .name n := by
    simp [hparts]
  have hfiles : ∀ file ∈ rewritten, Path.isFolderSpelling file.path = false := by decide
  exact fun file hfile => ⟨hfiles file hfile, hnames _ (List.mem_map_of_mem hfile)⟩

theorem wellFormed_workspace : workspace.WellFormed := .of_entries (by decide) (by decide)

theorem writeAll_ok_iff_canWriteAll_workspace : ∃ tree',
    (writeAll (m := StateM Tree) "tmp/../gen" rewritten).run workspace =
      (.ok ["tmp/../gen/types/user", "tmp/../gen/mod", "tmp/../gen/types/post"], tree') ∧
    workspace.CanWriteAll (rewritten.map (target "tmp/../gen")) ∧
    tree'.node? ["work", "gen", "notes"] = some (.file "kept") ∧
    tree'.node? ["work", "tmp"] = some .folder ∧
    (writeAll (m := StateM Tree) "tmp/../gen" rewritten).run tree' =
      (.ok ["tmp/../gen/types/user", "tmp/../gen/mod", "tmp/../gen/types/post"], tree') := by
  obtain ⟨hiff, hok⟩ := writeAll_ok_iff_canWriteAll wellFormed_workspace
    (Tree.isSome_placeOf? rfl "tmp/../gen") isPlain_rewritten (by decide)
  have htargets : rewritten.map (target "tmp/../gen") =
      ["tmp/../gen/types/user", "tmp/../gen/mod", "tmp/../gen/types/post"] := by decide
  have hisOk : ((writeAll (m := StateM Tree) "tmp/../gen" rewritten).run workspace).1.isOk := by
    decide +kernel
  rcases hrun : (writeAll (m := StateM Tree) "tmp/../gen" rewritten).run workspace with
    ⟨result, tree'⟩
  rw [hrun] at hisOk
  cases result with
  | error f => cases hisOk
  | ok paths =>
      have hcan := hiff.mp ⟨paths, tree', hrun⟩
      obtain ⟨hpaths, _, hother, hancestor, hagain⟩ := hok paths tree' hrun
      obtain rfl := hpaths.trans htargets
      refine ⟨tree', rfl, hcan, ?_, ?_, hagain⟩
      · exact ((hother _ (by decide)).1 "kept").mpr (by decide)
      · refine hancestor _ List.mem_cons_self _ ⟨[.name "tmp"],
          [.up, .name "gen", .name "types", .name "user"], by decide, by decide, rfl⟩

/-- A whole file system in which nothing stands. -/
def bare : Tree where
  entries := []
  working := some []

def lone : GeneratedFile := ⟨"x", "new", ""⟩

/-- The output root can lead through the place of a file and back: then to make the directories on
the way to the file puts one at its place. -/
theorem not_writeAll_ok_iff_other : ¬ ∀ (tree : Tree) (root : String) (files : List GeneratedFile),
    tree.WellFormed → (tree.placeOf? root).isSome → (∀ file ∈ files, Path.IsPlain file.path) →
    (files.map place).Nodup →
    ((∃ paths tree', (writeAll (m := StateM Tree) root files).run tree = (.ok paths, tree')) ↔
      (∀ file ∈ files, ∀ p ∈ tree.placeOf? (target root file), tree.node? p ≠ some .folder) ∧
      (∀ file ∈ files, ∀ p ∈ tree.placeOf? (target root file), ∀ other ∈ files, other ≠ file →
        ¬ tree.IsAncestor (target root other) p) ∧
      ∀ file ∈ files, ∀ p content, tree.IsAncestor (target root file) p →
        tree.node? p ≠ some (.file content)) := by
  intro h
  have hplain : ∀ file ∈ [lone], Path.IsPlain file.path := by
    rw [List.forall_mem_singleton]
    exact ⟨by decide, by simp [show Path.parts lone.path = [.name "x"] by decide]⟩
  have hplace : ∀ file ∈ [lone], ∀ p ∈ bare.placeOf? (target "x/.." file),
      bare.node? p ≠ some .folder := by decide
  have hother : ∀ file ∈ [lone], ∀ p ∈ bare.placeOf? (target "x/.." file), ∀ other ∈ [lone],
      other ≠ file → ¬ bare.IsAncestor (target "x/.." other) p := by
    simp
  have hnode : ∀ p content, bare.node? p ≠ some (.file content) := by
    intro p content
    rw [Tree.node?]
    split <;> simp [bare]
  have hfails : ((writeAll (m := StateM Tree) "x/.." [lone]).run bare).1.isOk = false := by decide
  obtain ⟨paths, tree', hrun⟩ := (h bare "x/.." [lone] (.of_entries (by decide) (by decide))
    (by decide) hplain (by decide)).mpr ⟨hplace, hother, fun _ _ p content _ => hnode p content⟩
  rw [hrun] at hfails
  cases hfails

end GeneratedFile

end Graphwright
