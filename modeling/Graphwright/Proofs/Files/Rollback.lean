import Graphwright.Files.Store
import Graphwright.Proofs.Files.Trees

/-!
# A failed write leaves every file as it was

What a file held is recorded when it is written, and given back in the opposite order. So what has
been recorded always leads back to the tree that there was at first, directories aside, even where
several paths lead to one file.
-/
namespace Graphwright

namespace Tree

variable {tree tree' : Tree} {path content : String} {previous : Option String}

/-! ## One file -/

/-- A write fails and leaves directories behind, or puts a file where there was a file or nothing. -/
theorem write_cases {result : Option (Option String)} (h : tree.write path content = (tree', result)) :
    (result = none ∧ AddsFolders (tree.IsAncestor path) tree tree') ∨
      ∃ made here n previous, result = some previous ∧
        AddsFolders (tree.IsAncestor path) tree made ∧ fileName? path = some n ∧
        made.folderAt? (Path.parts path).dropLast = some here ∧
        made.node? (here ++ [n]) = previous.map .file ∧
        tree' = made.put (here ++ [n]) (.file content) := by
  unfold write at h
  rcases hmade : tree.makeFolders (Path.parts path).dropLast with ⟨made, here?⟩
  rw [hmade] at h
  obtain ⟨hpasses, hwalk⟩ := addsFolders_makeFolders hmade
  have hadds : AddsFolders (tree.IsAncestor path) tree made := by
    by_cases hparts : Path.parts path = []
    · rw [hparts] at hmade
      cases hmade
      exact .refl _
    · exact hpasses.mono fun p hp => isAncestor_of_passes hp hparts
  cases here? with
  | none =>
      cases h
      exact Or.inl ⟨rfl, hadds⟩
  | some here =>
      have hfolder := hwalk here rfl
      dsimp only at h
      split at h
      · cases h
        exact Or.inl ⟨rfl, hadds⟩
      · rename_i n hn
        split at h
        · cases h
          exact Or.inl ⟨rfl, hadds⟩
        · rename_i old hold
          cases h
          exact Or.inr ⟨made, here, n, some old, rfl, hadds, hn, hfolder, hold, rfl⟩
        · rename_i hnone
          cases h
          exact Or.inr ⟨made, here, n, none, rfl, hadds, hn, hfolder, hnone, rfl⟩

/-- Restoring a file undoes the write of it, whatever directories have been added since. -/
theorem addsFolders_restore {made : Place → Prop} {here : Place} {n : String}
    (hn : fileName? path = some n) (hhere : tree.folderAt? (Path.parts path).dropLast = some here)
    (hold : tree.node? (here ++ [n]) = previous.map .file)
    (h : AddsFolders made (tree.put (here ++ [n]) (.file content)) tree') :
    AddsFolders made tree (tree'.restore path previous) := by
  have hplace : here ++ [n] ≠ [] := by simp
  have hput : ∀ p, (tree.put (here ++ [n]) (.file content)).node? p =
      if p = here ++ [n] then some (.file content) else tree.node? p := fun p => node?_put hplace _
  have hfolders : ∀ q, tree.node? q = some .folder → tree'.node? q = some .folder := by
    intro q hq
    apply h.node_eq
    rw [hput, if_neg, hq]
    rintro rfl
    rw [hq] at hold
    cases previous <;> cases hold
  have hwalk : tree'.folderAt? (Path.parts path).dropLast = some here :=
    folderAt?_of_folders (show tree'.working = tree.working from h.working) hfolders hhere
  -- What stands at other places is left alone.
  have hother : ∀ p, p ≠ here ++ [n] → tree'.node? p = tree.node? p ∨
      tree.node? p = none ∧ tree'.node? p = some .folder ∧ made p := by
    intro p hp
    have hp' := h.node p
    rwa [hput, if_neg hp] at hp'
  unfold restore
  rw [hn, hwalk]
  cases previous with
  | none =>
      refine ⟨h.working, fun p => ?_⟩
      dsimp only
      rw [node?_remove hplace]
      by_cases hp : p = here ++ [n]
      · exact Or.inl (by rw [if_pos hp, hp, hold]; rfl)
      · rw [if_neg hp]
        exact hother p hp
  | some old =>
      refine ⟨h.working, fun p => ?_⟩
      dsimp only
      rw [node?_put hplace]
      by_cases hp : p = here ++ [n]
      · exact Or.inl (by rw [if_pos hp, hp, hold]; rfl)
      · rw [if_neg hp]
        exact hother p hp

end Tree

namespace GeneratedFile

open Graphwright.Tree (AddsFolders)

/-! ## Undoing -/

/-- The tree after files have been restored. -/
def undo (written : List (String × Option String)) (tree : Tree) : Tree :=
  written.foldl (fun tree e => tree.restore e.1 e.2) tree

theorem restoreAll_eq (written : List (String × Option String)) (tree : Tree) :
    (restoreAll (m := StateM Tree) written).run tree = ((), undo written tree) := by
  induction written generalizing tree with
  | nil => rfl
  | cons e written ih =>
      obtain ⟨path, previous⟩ := e
      exact ih (tree.restore path previous)

/-- Undoing what has been written leads back to the first tree, up to directories, and so it does
from whatever tree has more directories still. -/
def LeadsBack (made : Place → Prop) (first : Tree) (written : List (String × Option String))
    (tree : Tree) : Prop :=
  ∀ later, AddsFolders made tree later → AddsFolders made first (undo written later)

theorem LeadsBack.write {made : Place → Prop} {first tree tree' : Tree}
    {written : List (String × Option String)} {path content : String} {previous : Option String}
    (h : LeadsBack made first written tree)
    (hwrite : tree.write path content = (tree', some previous))
    (hpath : ∀ p, tree.IsAncestor path p → made p) :
    LeadsBack made first ((path, previous) :: written) tree' := by
  rcases Tree.write_cases hwrite with ⟨hnone, _⟩ | ⟨between, here, n, old, e, hadds, hn, hhere, hold, rfl⟩
  · cases hnone
  · cases e
    intro later hlater
    exact h _ ((hadds.mono hpath).trans (Tree.addsFolders_restore hn hhere hold hlater))

theorem working_of_write {tree tree' : Tree} {path content : String}
    {result : Option (Option String)} (h : tree.write path content = (tree', result)) :
    tree'.working = tree.working := by
  rcases Tree.write_cases h with ⟨_, hadds⟩ | ⟨between, _, _, _, _, hadds, _, _, _, rfl⟩
  · exact hadds.working
  · exact hadds.working

/-! ## All files -/

section

variable {root : String} {tree tree' : Tree} {written : List (String × Option String)}
  {file : GeneratedFile} {files : List GeneratedFile}

theorem writeFrom_written {previous : Option String}
    (h : tree.write (Path.join root file.path) file.content = (tree', some previous)) :
    (writeFrom (m := StateM Tree) root written (file :: files)).run tree =
      (writeFrom (m := StateM Tree) root ((Path.join root file.path, previous) :: written)
        files).run tree' := by
  have hrun : (FileStore.write? (m := StateM Tree) (Path.join root file.path) file.content).run tree
      = (some previous, tree') := congrArg Prod.swap h
  rw [writeFrom, StateT.run_bind, hrun]
  rfl

theorem writeFrom_failed
    (h : tree.write (Path.join root file.path) file.content = (tree', none)) :
    (writeFrom (m := StateM Tree) root written (file :: files)).run tree =
      (.error .files, undo written tree') := by
  have hrun : (FileStore.write? (m := StateM Tree) (Path.join root file.path) file.content).run tree
      = (none, tree') := congrArg Prod.swap h
  rw [writeFrom, StateT.run_bind, hrun]
  change ((restoreAll (m := StateM Tree) written >>= fun _ =>
    return .error .files : StateM Tree (Except Failure (List String)))).run tree' = _
  rw [StateT.run_bind, restoreAll_eq]
  rfl

end

theorem addsFolders_of_writeFrom {made : Place → Prop} {root : String} {first tree tree' : Tree}
    {written : List (String × Option String)} {files : List GeneratedFile} {f : Failure}
    (hback : LeadsBack made first written tree)
    (hfiles : ∀ file ∈ files, ∀ p, tree.IsAncestor (Path.join root file.path) p → made p)
    (h : (writeFrom (m := StateM Tree) root written files).run tree = (.error f, tree')) :
    AddsFolders made first tree' := by
  induction files generalizing written tree with
  | nil => cases h
  | cons file files ih =>
      obtain ⟨between, result, hwrite⟩ : ∃ between result,
          tree.write (Path.join root file.path) file.content = (between, result) := ⟨_, _, rfl⟩
      have hpath := hfiles file List.mem_cons_self
      cases result with
      | some previous =>
          rw [writeFrom_written hwrite] at h
          refine ih (hback.write hwrite hpath) (fun other hother p hp => ?_) h
          rw [Tree.isAncestor_congr (working_of_write hwrite)] at hp
          exact hfiles other (List.mem_cons_of_mem _ hother) p hp
      | none =>
          rw [writeFrom_failed hwrite] at h
          cases h
          rcases Tree.write_cases hwrite with ⟨_, hadds⟩ | ⟨_, _, _, _, hsome, _⟩
          · exact hback between (hadds.mono hpath)
          · cases hsome

/-- If not all files can be written, every file that was there holds what it held, there is no new
one, and all that is left behind is directories on the way to the files. -/
theorem writeAll_error {root : String} {files : List GeneratedFile} {tree tree' : Tree} {f : Failure}
    (h : (writeAll (m := StateM Tree) root files).run tree = (.error f, tree')) :
    (∀ p content, tree'.node? p = some (.file content) ↔ tree.node? p = some (.file content)) ∧
      ∀ p, tree'.node? p ≠ tree.node? p →
        tree.node? p = none ∧ tree'.node? p = some .folder ∧
          ∃ file ∈ files, tree.IsAncestor (Path.join root file.path) p := by
  have hadds : AddsFolders
      (fun p => ∃ file ∈ files, tree.IsAncestor (Path.join root file.path) p) tree tree' := by
    unfold writeAll at h
    split at h
    · exact addsFolders_of_writeFrom (fun later hlater => hlater)
        (fun file hfile p hp => ⟨file, hfile, hp⟩) h
    · cases h
      exact .refl _
  exact ⟨fun p content => ⟨hadds.node_eq_file, hadds.node_eq⟩, fun p hne =>
    (hadds.node p).resolve_left hne⟩

/-- A file stands where the last of the files needs a directory. -/
def blocked : Tree where
  entries := [(["out"], .folder), (["out", "a"], .file "old"), (["out", "x"], .file "")]

/-- The first and the third one are the same file. -/
def batch : List GeneratedFile :=
  [⟨"a", "new", ""⟩, ⟨"b", "new", ""⟩, ⟨"n/../a", "newer", ""⟩, ⟨"x/c", "new", ""⟩]

theorem writeAll_error_blocked : ∃ f tree',
    (writeAll (m := StateM Tree) "out" batch).run blocked = (.error f, tree') ∧
    tree'.node? ["out", "a"] = some (.file "old") ∧
    (∀ content, tree'.node? ["out", "b"] ≠ some (.file content)) ∧
    tree'.node? ["out", "n"] = some .folder ∧
    ∃ file ∈ batch, blocked.IsAncestor (Path.join "out" file.path) ["out", "n"] := by
  have htest : ((writeAll (m := StateM Tree) "out" batch).run blocked).1.isOk = false ∧
      ((writeAll (m := StateM Tree) "out" batch).run blocked).2.node? ["out", "n"] ≠
        blocked.node? ["out", "n"] := by decide
  rcases hrun : (writeAll (m := StateM Tree) "out" batch).run blocked with ⟨result, tree'⟩
  rw [hrun] at htest
  cases result with
  | ok paths => cases htest.1
  | error f =>
      obtain ⟨hfiles, hfolders⟩ := writeAll_error hrun
      obtain ⟨_, hfolder, hancestor⟩ := hfolders ["out", "n"] htest.2
      refine ⟨f, tree', rfl, (hfiles _ _).mpr (by decide), fun content h => ?_, hfolder, hancestor⟩
      have hold := (hfiles _ _).mp h
      cases hold

end GeneratedFile

end Graphwright
