import Graphwright.Proofs.Files.Trees

/-!
# Making the directories on the way to a file

Where a path leads does not depend on what stands there. On the way there may be a file, and then
the walk fails. Otherwise it ends at the place that the path names, and there is a directory at each
place that it has passed.
-/
namespace Graphwright.Tree

variable {tree tree' : Tree} {path : String} {here there goal place : Place} {part : Path.Part}
  {parts : List Path.Part}

/-! ## Places of paths -/

/-- Whatever stands somewhere stands in a directory, and paths start in one. -/
structure WellFormed (tree : Tree) : Prop where
  parent : ∀ p n node, tree.node? (p ++ [n]) = some node → tree.node? p = some .folder
  start : tree.node? tree.start = some .folder

theorem WellFormed.of_entries (hstart : tree.node? tree.start = some .folder)
    (h : ∀ e ∈ tree.entries, tree.node? e.1.dropLast = some .folder) : tree.WellFormed where
  parent p n node hnode := by
    rw [node?, if_neg (by simp), List.lookup_eq_some_iff] at hnode
    obtain ⟨before, after, hentries, _⟩ := hnode
    have hparent := h (p ++ [n], node) (by simp [hentries])
    rwa [List.dropLast_concat] at hparent
  start := hstart

/-- The place that a path names, whether or not anything stands there. -/
def placeOf? (tree : Tree) (path : String) : Option Place :=
  (Path.parts path).foldlM tree.toward? tree.start

theorem placeOf?_congr (h : tree'.working = tree.working) :
    tree'.placeOf? path = tree.placeOf? path := by
  simp only [placeOf?, start, h, toward?_congr h]

/-- In a whole file system no path leads outside. -/
theorem isSome_placeOf? (h : tree.working.isSome) (path : String) :
    (tree.placeOf? path).isSome := by
  obtain ⟨working, hworking⟩ := Option.isSome_iff_exists.mp h
  have hstep : ∀ here part, ∃ there, tree.toward? here part = some there := by
    intro here part
    cases part with
    | up =>
        by_cases hroot : here = []
        · exact ⟨[], by simp [toward?, enter?, top?, hroot, hworking]⟩
        · exact ⟨here.dropLast, by simp [toward?, enter?, hroot]⟩
    | root => exact ⟨[], by simp [toward?, enter?, top?, hworking]⟩
    | here => exact ⟨here, rfl⟩
    | name n => exact ⟨here ++ [n], rfl⟩
  rw [placeOf?]
  generalize tree.start = here
  induction Path.parts path generalizing here with
  | nil => rfl
  | cons part parts ih =>
      obtain ⟨there, hthere⟩ := hstep here part
      rw [List.foldlM_cons, hthere]
      exact ih there

theorem WellFormed.put {n : String} {node : Node} (h : tree.WellFormed)
    (hhere : tree.node? here = some .folder)
    (hnode : tree.node? (here ++ [n]) = some .folder → node = .folder) :
    (tree.put (here ++ [n]) node).WellFormed := by
  have hput : ∀ p, (tree.put (here ++ [n]) node).node? p =
      if p = here ++ [n] then some node else tree.node? p := fun p => node?_put (by simp) node
  have hfolder : ∀ p, tree.node? p = some .folder →
      (tree.put (here ++ [n]) node).node? p = some .folder := by
    intro p hp
    rw [hput]
    split
    · rename_i e
      rw [hnode (e ▸ hp)]
    · exact hp
  refine ⟨fun p m other hp => hfolder p ?_, hfolder _ h.start⟩
  rw [hput] at hp
  split at hp
  · rename_i e
    rwa [(List.append_inj' e rfl).1]
  · exact h.parent p m other hp

/-! ## The way to a file -/

theorem passes_nil {p : Place} : tree.Passes here [] p ↔ p = here := by
  constructor
  · rintro ⟨inner, outer, h, hp⟩
    obtain ⟨rfl, rfl⟩ := List.append_eq_nil_iff.mp h.symm
    exact (Option.some.inj hp).symm
  · rintro rfl
    exact ⟨[], [], rfl, rfl⟩

theorem passes_cons_iff {p : Place} (h : tree.toward? here part = some there) :
    tree.Passes here (part :: parts) p ↔ p = here ∨ tree.Passes there parts p := by
  constructor
  · rintro ⟨inner, outer, hsplit, hp⟩
    cases inner with
    | nil => exact .inl (Option.some.inj hp).symm
    | cons first inner =>
        cases hsplit
        rw [List.foldlM_cons, h] at hp
        exact .inr ⟨inner, outer, rfl, hp⟩
  · rintro (rfl | hp)
    · exact ⟨[], _, rfl, rfl⟩
    · exact passes_cons h hp

theorem isAncestor_iff_passes {outer : List Path.Part} {last : Path.Part} {p : Place}
    (h : Path.parts path = outer ++ [last]) :
    tree.IsAncestor path p ↔ tree.Passes tree.start outer p := by
  rw [IsAncestor, h]
  constructor
  · rintro ⟨inner, rest, hsplit, hrest, hp⟩
    refine ⟨inner, rest.dropLast, ?_, hp⟩
    rw [← List.dropLast_append_of_ne_nil hrest, ← hsplit, List.dropLast_concat]
  · rintro ⟨inner, rest, rfl, hp⟩
    exact ⟨inner, rest ++ [last], List.append_assoc .., by simp, hp⟩

/-- A step finds a file in the way, or there is a directory behind it where it leads. -/
theorem enterMaking_cases (hwf : tree.WellFormed) (hhere : tree.node? here = some .folder)
    (h : tree.toward? here part = some there) :
    (∃ content, tree.node? there = some (.file content)) ∧
        enterMaking (tree, some here) part = (tree, none) ∨
      ∃ tree', enterMaking (tree, some here) part = (tree', some there) ∧ tree'.WellFormed ∧
        AddsFolders (· = there) tree tree' ∧ tree'.node? there = some .folder := by
  cases part with
  | name n =>
      cases h
      simp only [enterMaking]
      split
      · rename_i hnone
        have hput : ∀ p, (tree.put (here ++ [n]) .folder).node? p =
            if p = here ++ [n] then some .folder else tree.node? p :=
          fun p => node?_put (by simp) _
        have hthere := (hput (here ++ [n])).trans (if_pos rfl)
        refine .inr ⟨_, rfl, hwf.put hhere fun _ => rfl, ⟨rfl, fun p => ?_⟩, hthere⟩
        by_cases hp : p = here ++ [n]
        · exact .inr ⟨hp ▸ hnone, by rw [hput, if_pos hp], hp⟩
        · exact .inl (by rw [hput, if_neg hp])
      · exact .inr ⟨tree, rfl, hwf, .refl _, by assumption⟩
      · exact .inl ⟨⟨_, by assumption⟩, rfl⟩
  | here =>
      cases h
      exact .inr ⟨tree, rfl, hwf, .refl _, hhere⟩
  | root =>
      obtain ⟨_, _, rfl⟩ := Option.map_eq_some_iff.mp h
      exact .inr ⟨tree, congrArg (Prod.mk tree) h, hwf, .refl _, rfl⟩
  | up =>
      refine .inr ⟨tree, congrArg (Prod.mk tree) h, hwf, .refl _, ?_⟩
      change (if here = [] then tree.top? else some here.dropLast) = some there at h
      split at h
      · obtain ⟨_, _, rfl⟩ := Option.map_eq_some_iff.mp h
        rfl
      · rename_i hroot
        cases h
        refine hwf.parent _ (here.getLast hroot) .folder ?_
        rwa [List.dropLast_concat_getLast]

/-- A walk finds a file in the way, or all directories on the way are there behind it. -/
theorem foldl_enterMaking_cases (hwf : tree.WellFormed) (hhere : tree.node? here = some .folder)
    (h : parts.foldlM tree.toward? here = some goal) :
    (∃ p content, tree.Passes here parts p ∧ tree.node? p = some (.file content)) ∧
        (parts.foldl enterMaking (tree, some here)).2 = none ∨
      ∃ tree', parts.foldl enterMaking (tree, some here) = (tree', some goal) ∧ tree'.WellFormed ∧
        AddsFolders (tree.Passes here parts) tree tree' ∧
        ∀ p, tree.Passes here parts p → tree'.node? p = some .folder := by
  induction parts generalizing tree here with
  | nil =>
      cases h
      exact .inr ⟨tree, rfl, hwf, .refl _, fun p hp => passes_nil.mp hp ▸ hhere⟩
  | cons part parts ih =>
      rw [List.foldlM_cons, Option.bind_eq_bind, Option.bind_eq_some_iff] at h
      obtain ⟨there, hthere, h⟩ := h
      have hpasses : ∀ {p}, tree.Passes here (part :: parts) p ↔
          p = here ∨ tree.Passes there parts p := passes_cons_iff hthere
      rw [List.foldl_cons]
      rcases enterMaking_cases hwf hhere hthere with
        ⟨⟨content, hfile⟩, hstep⟩ | ⟨next, hstep, hnext, hadds, hfolder⟩
      · refine .inl ⟨⟨there, content, hpasses.mpr (.inr ⟨[], parts, rfl, rfl⟩), hfile⟩, ?_⟩
        rw [hstep, foldl_enterMaking_none]
      · have hsame : next.toward? = tree.toward? := toward?_congr hadds.working
        have hthrough : ∀ {p}, next.Passes there parts p ↔ tree.Passes there parts p := by
          simp only [Passes, hsame, implies_true]
        rw [hstep]
        rcases ih hnext hfolder (hsame ▸ h) with
          ⟨⟨p, content, hp, hfile⟩, hnone⟩ | ⟨tree', hwalk, hwf', hrest, hfolders⟩
        · exact .inl ⟨⟨p, content, hpasses.mpr (.inr (hthrough.mp hp)), hadds.node_eq_file hfile⟩,
            hnone⟩
        · refine .inr ⟨tree', hwalk, hwf', (hadds.mono ?_).trans (hrest.mono ?_), fun p hp => ?_⟩
          · rintro p rfl
            exact hpasses.mpr (.inr ⟨[], parts, rfl, rfl⟩)
          · exact fun p hp => hpasses.mpr (.inr (hthrough.mp hp))
          · rcases hpasses.mp hp with rfl | hp
            · exact hrest.node_eq (hadds.node_eq hhere)
            · exact hfolders p (hthrough.mpr hp)

/-- A walk through directories that are there makes none. -/
theorem foldl_enterMaking_eq_self (h : parts.foldlM tree.toward? here = some goal)
    (hfolders : ∀ p, tree.Passes here parts p → tree.node? p = some .folder) :
    parts.foldl enterMaking (tree, some here) = (tree, some goal) := by
  induction parts generalizing here with
  | nil =>
      cases h
      rfl
  | cons part parts ih =>
      rw [List.foldlM_cons, Option.bind_eq_bind, Option.bind_eq_some_iff] at h
      obtain ⟨there, hthere, h⟩ := h
      have hstep : enterMaking (tree, some here) part = (tree, some there) := by
        cases part with
        | name n =>
            cases hthere
            have hfolder : tree.node? (here ++ [n]) = some .folder :=
              hfolders _ (passes_cons rfl ⟨[], parts, rfl, rfl⟩)
            simp only [enterMaking, hfolder]
        | _ => exact congrArg (Prod.mk tree) hthere
      rw [List.foldl_cons, hstep]
      exact ih h fun p hp => hfolders p (passes_cons hthere hp)

theorem putEntry_eq_self {node : Node} {entries : List (Place × Node)}
    (h : entries.lookup place = some node) : putEntry place node entries = entries := by
  induction entries with
  | nil => cases h
  | cons entry entries ih =>
      obtain ⟨p, old⟩ := entry
      rw [putEntry]
      by_cases hp : p = place
      · subst hp
        rw [List.lookup_cons_self] at h
        rw [if_pos rfl, Option.some.inj h]
      · rw [List.lookup_cons, beq_eq_false_iff_ne.mpr (Ne.symm hp)] at h
        rw [if_neg hp, ih h]

theorem put_eq_self {node : Node} (hplace : place ≠ []) (h : tree.node? place = some node) :
    tree.put place node = tree := by
  rw [node?, if_neg hplace] at h
  rw [put, putEntry_eq_self h]

end Graphwright.Tree
