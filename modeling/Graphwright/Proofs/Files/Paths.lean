import Graphwright.Files.Tree
import Mathlib.Data.Set.List

/-!
# Paths below a root

A path that is put behind a root has the parts of the root and then its own. If it is made of names,
it ends in the name of a file, and so does the whole.
-/
namespace Graphwright.Path

variable {base path : String} {part : Part}

/-- A relative path made of names. -/
structure IsPlain (path : String) : Prop where
  isFile : isFolderSpelling path = false
  isName : ∀ part ∈ parts path, ∃ n, part = .name n

/-! ## Pieces -/

theorem pieces_ne_nil (path : String) : pieces path ≠ [] := by
  rw [pieces, ne_eq, List.map_eq_nil_iff]
  exact Text.splitWhere_ne_nil _ _

theorem pieces_append (base path : String) :
    pieces (base ++ "/" ++ path) = pieces base ++ pieces path := by
  have hlist : (base ++ "/" ++ path).toList = base.toList ++ '/' :: path.toList := by
    simp [String.toList_append]
  rw [pieces, hlist, Text.splitWhere_append (decide_eq_true rfl), List.map_append]
  rfl

theorem innerParts_append (ps qs : List String) :
    innerParts (ps ++ qs) = innerParts ps ++ innerParts qs :=
  List.filterMap_append

theorem innerParts_name {n : String} (h : n ≠ "" ∧ n ≠ "." ∧ n ≠ "..") :
    innerParts [n] = [.name n] := by
  simp [innerParts, h]

/-- The parts of a path, by the pieces it is made of. -/
theorem parts_eq {first : String} {rest : List String} (h : pieces path = first :: rest) :
    parts path =
      if first = "" then if rest = [] then [] else .root :: innerParts rest
      else if first = "." then .here :: innerParts rest else innerParts (first :: rest) := by
  rw [parts, h]

theorem eq_empty_of_pieces (h : pieces base = [""]) : base = "" := by
  obtain ⟨cs, rfl⟩ : ∃ cs, base = String.ofList cs :=
    ⟨base.toList, String.ofList_toList.symm⟩
  rw [pieces, String.toList_ofList] at h
  cases cs with
  | nil => rfl
  | cons c cs =>
      rw [Text.splitWhere] at h
      split at h
      · simp [Text.splitWhere_ne_nil] at h
      · split at h <;> simp at h

/-! ## Putting a path behind a root -/

/-- What stands behind a slash adds its parts to those in front of it. -/
theorem parts_slash (base path : String) :
    parts (base ++ "/" ++ path) = parts (base ++ "/") ++ innerParts (pieces path) := by
  obtain ⟨first, rest, hbase⟩ := List.exists_cons_of_ne_nil (pieces_ne_nil base)
  have hpath := pieces_append base path
  have hslash := pieces_append base ""
  have hempty : innerParts (pieces "") = [] := by decide
  rw [String.append_empty] at hslash
  rw [hbase, List.cons_append] at hpath hslash
  rw [parts_eq hpath, parts_eq hslash]
  simp only [List.append_eq_nil_iff, pieces_ne_nil, and_false, if_false, innerParts_append, hempty,
    List.append_nil, ← List.cons_append]
  split
  · rfl
  · split <;> simp [← innerParts_append]

theorem parts_append_slash (h : base ≠ "") : parts (base ++ "/") = parts base := by
  obtain ⟨first, rest, hbase⟩ := List.exists_cons_of_ne_nil (pieces_ne_nil base)
  have hslash := pieces_append base ""
  have hempty : ∀ ps, innerParts (ps ++ pieces "") = innerParts ps := fun ps => by
    rw [innerParts_append, show innerParts (pieces "") = [] by decide, List.append_nil]
  rw [String.append_empty, hbase, List.cons_append] at hslash
  rw [parts_eq hslash, parts_eq hbase]
  by_cases hfirst : first = ""
  · have hrest : rest ≠ [] := by
      rintro rfl
      exact h (eq_empty_of_pieces (hfirst ▸ hbase))
    simp [hfirst, hrest, hempty]
  · rw [if_neg hfirst, if_neg hfirst, hempty, ← List.cons_append, hempty]

/-- A path that is not absolute is put behind a slash, unless the root is empty. -/
theorem join_cases (h : isAbsolute path = false) (base : String) :
    base = "" ∧ join base path = path ∨
      ∃ b, join base path = b ++ "/" ++ path ∧ parts (b ++ "/") = parts base := by
  by_cases hbase : base = ""
  · exact .inl ⟨hbase, by simp [join, h, hbase]⟩
  · by_cases hlast : base.toList.getLast? = some '/'
    · obtain ⟨cs, hcs⟩ := List.getLast?_eq_some_iff.mp hlast
      have hb : base = String.ofList cs ++ "/" := by
        rw [← String.toList_inj, hcs, String.toList_append, String.toList_ofList]
        rfl
      exact .inr ⟨String.ofList cs, by simp [join, h, hbase, hlast, ← hb], by rw [← hb]⟩
    · exact .inr ⟨base, by simp [join, h, hbase, hlast], parts_append_slash hbase⟩

namespace IsPlain

theorem pieces_eq (h : IsPlain path) : ∃ first rest, pieces path = first :: rest ∧
    first ≠ "" ∧ first ≠ "." := by
  obtain ⟨first, rest, hpath⟩ := List.exists_cons_of_ne_nil (pieces_ne_nil path)
  have hparts := parts_eq hpath
  refine ⟨first, rest, hpath, ?_, ?_⟩
  · rintro rfl
    by_cases hrest : rest = []
    · have hfolder := h.isFile
      rw [isFolderSpelling, hpath, hrest] at hfolder
      cases hfolder
    · rw [if_pos rfl, if_neg hrest] at hparts
      obtain ⟨n, hn⟩ := h.isName .root (hparts ▸ List.mem_cons_self)
      cases hn
  · rintro rfl
    rw [if_neg (by decide), if_pos rfl] at hparts
    obtain ⟨n, hn⟩ := h.isName .here (hparts ▸ List.mem_cons_self)
    cases hn

theorem isAbsolute_eq (h : IsPlain path) : isAbsolute path = false := by
  obtain ⟨first, rest, hpath, hfirst, _⟩ := h.pieces_eq
  refine decide_eq_false fun hhead => ?_
  obtain ⟨cs, hcs⟩ := List.head?_eq_some_iff.mp hhead
  rw [pieces, hcs, Text.splitWhere, if_pos (decide_eq_true rfl), List.map_cons] at hpath
  exact hfirst (List.cons.inj hpath).1.symm

theorem parts_eq_innerParts (h : IsPlain path) : parts path = innerParts (pieces path) := by
  obtain ⟨first, rest, hpath, hempty, hdot⟩ := h.pieces_eq
  rw [parts_eq hpath, if_neg hempty, if_neg hdot, hpath]

theorem parts_join (h : IsPlain path) (base : String) :
    parts (join base path) = parts base ++ parts path := by
  rcases join_cases h.isAbsolute_eq base with ⟨rfl, hjoin⟩ | ⟨b, hjoin, hbase⟩
  · rw [hjoin]
    rfl
  · rw [hjoin, parts_slash, hbase, h.parts_eq_innerParts]

/-- The parts of the path are names, the last of which is that of the file, also behind a root. -/
theorem exists_names (h : IsPlain path) : ∃ outer n, parts path = (outer ++ [n]).map .name ∧
    ∀ base, Tree.fileName? (join base path) = some n := by
  obtain ⟨init, n, hpieces, hn⟩ : ∃ init n, pieces path = init ++ [n] ∧
      n ≠ "" ∧ n ≠ "." ∧ n ≠ ".." := by
    have hfolder := h.isFile
    rw [isFolderSpelling] at hfolder
    split at hfolder
    · rename_i last hlast
      obtain ⟨init, hinit⟩ := List.getLast?_eq_some_iff.mp hlast
      exact ⟨init, last, hinit, by simpa [and_assoc] using hfolder⟩
    · cases hfolder
  have hparts : parts path = innerParts init ++ [.name n] := by
    rw [h.parts_eq_innerParts, hpieces, innerParts_append, innerParts_name hn]
  have hfile : ∀ base, isFolderSpelling (join base path) = false := by
    intro base
    rcases join_cases h.isAbsolute_eq base with ⟨_, hjoin⟩ | ⟨b, hjoin, _⟩
    · rw [hjoin, h.isFile]
    · rw [hjoin, isFolderSpelling, pieces_append, hpieces, ← List.append_assoc,
        List.getLast?_concat]
      simp [hn]
  obtain ⟨outer, houter⟩ : innerParts init ∈ Set.range (List.map Part.name) := by
    rw [Set.range_list_map]
    intro part hpart
    obtain ⟨m, hm⟩ := h.isName part (hparts ▸ List.mem_append_left _ hpart)
    exact ⟨m, hm.symm⟩
  refine ⟨outer, n, by rw [hparts, List.map_append, houter]; rfl, fun base => ?_⟩
  rw [Tree.fileName?, hfile, h.parts_join, hparts, ← List.append_assoc, List.getLast?_concat]
  rfl

end IsPlain

end Graphwright.Path
