import Graphwright.Files.Tree
import Mathlib.Data.Option.Basic

/-!
# What stands in a tree

Putting and removing touch one place. Making directories, as writing a file does on its way, changes
nothing but places where nothing stood before.
-/
namespace Graphwright.Tree

variable {tree tree' : Tree} {place p : Place} {path : String}

/-! ## One place -/

theorem lookup_putEntry (node : Node) (entries : List (Place × Node)) :
    (putEntry place node entries).lookup p = if p = place then some node else entries.lookup p := by
  induction entries with
  | nil =>
      by_cases h : p = place
      · simp [putEntry, h]
      · simp [putEntry, List.lookup_cons, beq_eq_false_iff_ne.mpr h, h]
  | cons entry entries ih =>
      obtain ⟨q, old⟩ := entry
      rw [putEntry]
      by_cases hq : q = place
      · subst hq
        by_cases h : p = q
        · simp [h]
        · simp [List.lookup_cons, beq_eq_false_iff_ne.mpr h, h]
      · rw [if_neg hq]
        by_cases h : p = q
        · subst h
          simp [hq]
        · simp [List.lookup_cons, beq_eq_false_iff_ne.mpr h, ih]

theorem lookup_filter_ne (entries : List (Place × Node)) :
    (entries.filter (·.1 ≠ place)).lookup p = if p = place then none else entries.lookup p := by
  induction entries with
  | nil => simp
  | cons entry entries ih =>
      obtain ⟨q, node⟩ := entry
      by_cases hq : q = place
      · subst hq
        by_cases h : p = q
        · subst h
          simpa using ih
        · simpa [List.lookup_cons, beq_eq_false_iff_ne.mpr h, h] using ih
      · by_cases h : p = q
        · subst h
          simp [hq]
        · simpa [hq, List.lookup_cons, beq_eq_false_iff_ne.mpr h] using ih

theorem node?_put (h : place ≠ []) (node : Node) :
    (tree.put place node).node? p = if p = place then some node else tree.node? p := by
  simp only [node?, put, lookup_putEntry]
  by_cases hp : p = []
  · subst hp
    simp [Ne.symm h]
  · simp [hp]

theorem node?_remove (h : place ≠ []) :
    (tree.remove place).node? p = if p = place then none else tree.node? p := by
  simp only [node?, remove, lookup_filter_ne]
  by_cases hp : p = []
  · subst hp
    simp [Ne.symm h]
  · simp [hp]

/-! ## Walking -/

section

variable (hw : tree'.working = tree.working)
  (hf : ∀ q, tree.node? q = some .folder → tree'.node? q = some .folder)

include hw hf

theorem enter?_of_folders {here : Place} {part : Path.Part}
    (h : tree.enter? here part = some place) : tree'.enter? here part = some place := by
  cases part with
  | name n =>
      simp only [enter?] at h ⊢
      split at h
      · rename_i hn
        rw [if_pos (hf _ hn)]
        exact h
      · cases h
  | _ => simpa only [enter?, top?, hw] using h

/-- A walk through directories leads to the same place in a tree that has them all. -/
theorem folderAt?_of_folders {parts : List Path.Part}
    (h : tree.folderAt? parts = some place) : tree'.folderAt? parts = some place := by
  have hwalk : ∀ here, parts.foldlM tree.enter? here = some place →
      parts.foldlM tree'.enter? here = some place := by
    clear h
    induction parts with
    | nil => exact fun _ h => h
    | cons part parts ih =>
        intro here h
        rw [List.foldlM_cons, Option.bind_eq_bind, Option.bind_eq_some_iff] at h ⊢
        obtain ⟨there, hthere, h⟩ := h
        exact ⟨there, enter?_of_folders hw hf hthere, ih there h⟩
  rw [folderAt?, start, hw]
  exact hwalk _ h

end

/-- The place that a part of a path leads to, whether or not there is a directory. -/
def toward? (tree : Tree) (here : Place) : Path.Part → Option Place
  | .name n => some (here ++ [n])
  | part => tree.enter? here part

theorem toward?_congr (h : tree'.working = tree.working) : tree'.toward? = tree.toward? := by
  funext here part
  cases part <;> simp only [toward?, enter?, top?, h]

/-- The place is one that the path goes through on the way to what it names. -/
def IsAncestor (tree : Tree) (path : String) (place : Place) : Prop :=
  ∃ inner outer, Path.parts path = inner ++ outer ∧ outer ≠ [] ∧
    inner.foldlM tree.toward? tree.start = some place

theorem isAncestor_congr (h : tree'.working = tree.working) :
    tree'.IsAncestor path place ↔ tree.IsAncestor path place := by
  simp only [IsAncestor, start, h, toward?_congr h]

/-! ## Added directories -/

/-- The second tree is the first one with directories added, at places of the given kind. -/
structure AddsFolders (made : Place → Prop) (tree tree' : Tree) : Prop where
  working : tree'.working = tree.working
  node : ∀ p, tree'.node? p = tree.node? p ∨
    tree.node? p = none ∧ tree'.node? p = some .folder ∧ made p

namespace AddsFolders

variable {made made' : Place → Prop} {tree'' : Tree}

theorem refl (tree : Tree) : AddsFolders made tree tree := ⟨rfl, fun _ => Or.inl rfl⟩

theorem trans (h : AddsFolders made tree tree') (h' : AddsFolders made tree' tree'') :
    AddsFolders made tree tree'' := by
  refine ⟨h'.working.trans h.working, fun p => ?_⟩
  rcases h'.node p with e' | ⟨hnone, hfolder, hmade⟩
  · rw [e']
    exact h.node p
  · rcases h.node p with e | ⟨_, hold, _⟩
    · exact Or.inr ⟨e ▸ hnone, hfolder, hmade⟩
    · rw [hold] at hnone
      cases hnone

theorem mono (h : AddsFolders made tree tree') (hm : ∀ p, made p → made' p) :
    AddsFolders made' tree tree' :=
  ⟨h.working, fun p => (h.node p).imp_right fun ⟨hnone, hfolder, hp⟩ => ⟨hnone, hfolder, hm p hp⟩⟩

theorem node_eq (h : AddsFolders made tree tree') {node : Node} (hp : tree.node? p = some node) :
    tree'.node? p = some node := by
  rcases h.node p with e | ⟨hnone, _, _⟩
  · rw [e, hp]
  · rw [hp] at hnone
    cases hnone

theorem node_eq_file (h : AddsFolders made tree tree') {content : String}
    (hp : tree'.node? p = some (.file content)) : tree.node? p = some (.file content) := by
  rcases h.node p with e | ⟨_, hfolder, _⟩
  · rw [← e, hp]
  · rw [hp] at hfolder
    cases hfolder

end AddsFolders

/-! ## Making directories -/

/-- A place that parts lead through from another one. -/
def Passes (tree : Tree) (here : Place) (parts : List Path.Part) (p : Place) : Prop :=
  ∃ inner outer, parts = inner ++ outer ∧ inner.foldlM tree.toward? here = some p

theorem passes_cons {here there : Place} {part : Path.Part} {parts : List Path.Part}
    (h : tree.toward? here part = some there) (hp : tree.Passes there parts p) :
    tree.Passes here (part :: parts) p := by
  obtain ⟨inner, outer, rfl, hinner⟩ := hp
  refine ⟨part :: inner, outer, rfl, ?_⟩
  rw [List.foldlM_cons, h]
  exact hinner

theorem isAncestor_of_passes (h : tree.Passes tree.start (Path.parts path).dropLast p)
    (hparts : Path.parts path ≠ []) : tree.IsAncestor path p := by
  obtain ⟨inner, outer, hsplit, hinner⟩ := h
  refine ⟨inner, outer ++ [(Path.parts path).getLast hparts], ?_, by simp, hinner⟩
  rw [← List.append_assoc, ← hsplit, List.dropLast_concat_getLast]

/-- One step makes at most the directory that it enters. -/
theorem addsFolders_enterMaking {here : Place} {part : Path.Part} {there? : Option Place}
    (h : enterMaking (tree, some here) part = (tree', there?)) :
    AddsFolders (fun p => tree.toward? here part = some p) tree tree' ∧
      ∀ there, there? = some there →
        tree'.enter? here part = some there ∧ tree.toward? here part = some there := by
  cases part with
  | name n =>
      simp only [enterMaking] at h
      split at h
      · rename_i hnone
        cases h
        have hput : ∀ p, (tree.put (here ++ [n]) .folder).node? p =
            if p = here ++ [n] then some .folder else tree.node? p :=
          fun p => node?_put (by simp) _
        refine ⟨⟨rfl, fun p => ?_⟩, fun there e => ?_⟩
        · by_cases hp : p = here ++ [n]
          · subst hp
            exact Or.inr ⟨hnone, by rw [hput, if_pos rfl], rfl⟩
          · exact Or.inl (by rw [hput, if_neg hp])
        · cases e
          exact ⟨by rw [enter?, hput, if_pos rfl, if_pos rfl], rfl⟩
      · rename_i hfolder
        cases h
        refine ⟨.refl _, fun there e => ?_⟩
        cases e
        exact ⟨by rw [enter?, if_pos hfolder], rfl⟩
      · cases h
        exact ⟨.refl _, fun there e => by cases e⟩
  | _ =>
      cases h
      exact ⟨.refl _, fun there e => ⟨e, e⟩⟩

theorem foldl_enterMaking_none (parts : List Path.Part) :
    parts.foldl enterMaking (tree, none) = (tree, none) := by
  induction parts with
  | nil => rfl
  | cons part parts ih => rw [List.foldl_cons, enterMaking, ih]

theorem addsFolders_foldl_enterMaking {parts : List Path.Part} {here : Place}
    {there? : Option Place} (h : parts.foldl enterMaking (tree, some here) = (tree', there?)) :
    AddsFolders (tree.Passes here parts) tree tree' ∧
      ∀ there, there? = some there → parts.foldlM tree'.enter? here = some there := by
  induction parts generalizing tree here with
  | nil =>
      cases h
      exact ⟨.refl _, fun _ e => e⟩
  | cons part parts ih =>
      rw [List.foldl_cons] at h
      obtain ⟨next, next?, hnext⟩ : ∃ next next?, enterMaking (tree, some here) part = (next, next?) :=
        ⟨_, _, rfl⟩
      rw [hnext] at h
      obtain ⟨hadds, henter⟩ := addsFolders_enterMaking hnext
      have hstep : ∀ p, tree.toward? here part = some p → tree.Passes here (part :: parts) p :=
        fun p hp => passes_cons hp ⟨[], parts, rfl, rfl⟩
      cases next? with
      | none =>
          rw [foldl_enterMaking_none] at h
          cases h
          exact ⟨hadds.mono hstep, fun _ e => by cases e⟩
      | some there =>
          obtain ⟨hrest, hwalk⟩ := ih h
          obtain ⟨hthere, htoward⟩ := henter there rfl
          refine ⟨(hadds.mono hstep).trans (hrest.mono fun p hp => ?_), fun goal e => ?_⟩
          · have hsame : next.toward? = tree.toward? := toward?_congr hadds.working
            exact passes_cons htoward (by rwa [Passes, hsame] at hp)
          · rw [List.foldlM_cons, Option.bind_eq_bind, Option.bind_eq_some_iff]
            exact ⟨there, enter?_of_folders hrest.working (fun _ hq => hrest.node_eq hq) hthere,
              hwalk goal e⟩

/-- Directories are made only on the way, and then the way is there. -/
theorem addsFolders_makeFolders {parts : List Path.Part} {there? : Option Place}
    (h : tree.makeFolders parts = (tree', there?)) :
    AddsFolders (tree.Passes tree.start parts) tree tree' ∧
      ∀ there, there? = some there → tree'.folderAt? parts = some there := by
  obtain ⟨hadds, hwalk⟩ := addsFolders_foldl_enterMaking h
  refine ⟨hadds, fun there e => ?_⟩
  rw [folderAt?, start, hadds.working]
  exact hwalk there e

end Graphwright.Tree
