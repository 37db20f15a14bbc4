import Graphwright.Proofs.Rust.PlainPaths
import Graphwright.Proofs.Rust.ReadPaths
import Graphwright.Proofs.Rust.Scope

/-!
# Names for paths

A table of imports hands out short names from one set: those of the prelude and of the file are
taken from the start, then those of the client library, then the last segments of paths in their
order. So every name that is imported is imported once, and a path that is not imported under its
last segment is written out.
-/
namespace Graphwright.Rust

open Code (Dependencies RuntimeItem)

/-! ## Written types -/

/-- The characters that are no blanks. -/
def withoutSpace (cs : List Char) : List Char := cs.filter (!Token.isSpace ·)

/-- The tokens of the type, one behind the other, are the text but for blanks. -/
def Ty.Writes (type : Ty) (text : String) : Prop :=
  ∃ form tokens, type = .verbatim form tokens ∧
    withoutSpace (tokens.flatMap (·.text.toList)) = withoutSpace text.toList

/-- The type is written as one identifier. -/
def Ty.IsName (type : Ty) (i : Ident) : Prop :=
  Text.isIdentifier i.name.toList = true ∧
    (type = .named i ∨ ∃ form, type = .verbatim form [.ident i])

/-- If the text is read as a type, the type has the tokens of the text. -/
def KeepsTokens (text : String) : Prop :=
  ∀ type, TypeText.ofText? text = some type → type.Writes text

/-- The text has two colons that follow each other. -/
def HasColons (text : String) : Prop := [':', ':'] <:+: text.toList

theorem Ident.not_mem_text {i : Ident} (h : Text.isIdentifier i.name.toList = true) :
    ':' ∉ i.text.toList := by
  have hname := Text.not_mem_of_isIdentifier h (by decide : Text.isIdentifierContinue ':' = false)
  rw [Ident.text]
  split
  · simpa [String.toList_append] using hname
  · exact hname

/-- A text with colons that is written out is no single name. -/
theorem Ty.Writes.not_isName {type : Ty} {text : String} (h : type.Writes text)
    (hcolons : HasColons text) (i : Ident) : ¬ type.IsName i := by
  rintro ⟨hident, hname⟩
  obtain ⟨form, tokens, rfl, htext⟩ := h
  rcases hname with e | ⟨form', e⟩
  · cases e
  · cases e
    have hcolon : ':' ∈ withoutSpace text.toList :=
      List.mem_filter.mpr ⟨hcolons.subset (by simp), by decide⟩
    rw [← htext] at hcolon
    have hmem := (List.mem_filter.mp hcolon).1
    rw [List.flatMap_singleton] at hmem
    exact Ident.not_mem_text hident hmem

theorem flatMap_pathTokens (segments : List String) :
    (pathTokens segments).flatMap (·.text.toList) = (joinPath segments).toList := by
  fun_induction pathTokens segments with
  | case1 => rfl
  | case2 segment =>
      rw [joinPath_singleton, List.flatMap_singleton]
      rfl
  | case3 segment next rest ih =>
      rw [joinPath_cons_cons, List.flatMap_cons, List.flatMap_cons, ih]
      rfl

/-- A path of names keeps its tokens. -/
theorem keepsTokens_joinPath {segments : List String} (hne : segments ≠ [])
    (hmember : ∀ s ∈ segments, (Ident.plain s).isMember = true)
    (hwords : ∀ s ∈ segments, isPlainIdentifier s.toList = true)
    (hstart : segments.head? ≠ some "try") : KeepsTokens (joinPath segments) := by
  intro type htype
  rw [TypeText.ofText?_joinPath hne hmember hwords hstart] at htype
  cases htype
  exact ⟨_, _, rfl, congrArg withoutSpace (flatMap_pathTokens segments)⟩

theorem hasColons_joinPath (first next : String) (rest : List String) :
    HasColons (joinPath (first :: next :: rest)) := by
  rw [HasColons, joinPath_cons_cons]
  exact ⟨first.toList, (joinPath (next :: rest)).toList, by simp⟩

/-! ## Paths of imports -/

theorem isIdentifier_of_pathSegment? {segment : String} {i : Ident}
    (h : pathSegment? segment = some i) : Text.isIdentifier segment.toList = true := by
  unfold pathSegment? at h
  dsimp only at h
  split at h
  · rename_i hs
    exact hs.1
  · cases h

theorem eq_pathSegments_of_plainSegments? {path : String} {segments : List String}
    (h : plainSegments? path = some segments) :
    segments = (pathSegments path.toList).map String.ofList := by
  unfold plainSegments? at h
  dsimp only at h
  split at h
  · cases h
    rw [pieces_eq_pathSegments]
  · cases h

theorem eq_lastSegment {path tail : String} (h : importableTail? path = some tail) :
    tail = lastSegment path := by
  obtain ⟨segments, hsegments, h⟩ := Option.bind_eq_some_iff.mp h
  rw [eq_pathSegments_of_plainSegments? hsegments, List.getLast?_map] at h
  obtain ⟨last, hlast, rfl⟩ := Option.map_eq_some_iff.mp h
  rw [lastSegment, List.getLastD_eq_getLast?, hlast, Option.getD_some]

/-- The segments of a path that is imported are those of its text. -/
theorem joinPath_of_path? {path : String} {segments : List Ident} (h : path? path = some segments) :
    joinPath (segments.map (·.text)) = path := by
  obtain ⟨names, hnames, hsegments⟩ := Option.bind_eq_some_iff.mp h
  have hplain : Ident.text ∘ Ident.plain = id := rfl
  rw [eq_map_plain hsegments, List.map_map, hplain, List.map_id,
    eq_pathSegments_of_plainSegments? hnames, ← String.toList_inj, joinPath_pathSegments]

theorem isIdentifier_of_path? {path : String} {segments : List Ident}
    (h : path? path = some segments) :
    ∀ i ∈ segments, Text.isIdentifier i.name.toList = true := by
  obtain ⟨names, hnames, hsegments⟩ := Option.bind_eq_some_iff.mp h
  clear h hnames
  induction names generalizing segments with
  | nil =>
      cases hsegments
      simp
  | cons name names ih =>
      rw [List.mapM_cons] at hsegments
      obtain ⟨i, hi, hsegments⟩ := Option.bind_eq_some_iff.mp hsegments
      obtain ⟨is, his, hsegments⟩ := Option.bind_eq_some_iff.mp hsegments
      cases hsegments
      rw [List.forall_mem_cons, eq_plain_of_pathSegment? hi]
      exact ⟨isIdentifier_of_pathSegment? hi, ih his⟩

theorem nodup_map_name : (RuntimeItem.all.map (·.name)).Nodup := by decide

namespace Imports

/-- An item of the file imports the path under its last segment, which is `i`. -/
def Brings (imports : Imports) (path : String) (i : Ident) : Prop :=
  i = .plain (lastSegment path) ∧
    ∃ front, .use false front [i] ∈ imports.items ∧ joinPath ((front ++ [i]).map (·.text)) = path

/-- The names that the items of the table bring into scope. -/
def broughtNames (imports : Imports) : List String :=
  (imports.items.flatMap Item.brings).map (·.name)

section

variable {base defined : List String} {ownPath : String} {own : Ident} {paths : List String}
  {imports : Imports}

theorem Tracks.brings (h : Tracks base ownPath own paths imports) {path tail : String}
    (hpath : path ∈ paths) (htail : importableTail? path = some tail) :
    imports.Brings path (.plain tail) ∧ Text.isIdentifier tail.toList = true := by
  obtain ⟨segments, hs, hsegments⟩ := Outcome.mem_of_forall₂ h.uses path hpath
  have hlast := getLast?_of_path? hsegments htail
  obtain ⟨front, rfl⟩ := List.getLast?_eq_some_iff.mp hlast
  have huse : .use false front [.plain tail] ∈ imports.items := by
    refine List.mem_append_right _ (List.mem_map.mpr ⟨_, hs, ?_⟩)
    simp
  exact ⟨⟨congrArg _ (eq_lastSegment htail), front, huse, joinPath_of_path? hsegments⟩,
    isIdentifier_of_path? hsegments _ (List.mem_append_right _ (List.mem_singleton_self _))⟩

theorem broughtNames_eq (imports : Imports) : imports.broughtNames =
    imports.runtime.map (·.name) ++
      (imports.uses.flatMap (·.getLast?.toList)).map (·.name) := by
  rw [broughtNames, items, List.flatMap_append, List.map_append, List.flatMap_map]
  congr 1
  split
  · rename_i hnone
    simp [List.map_eq_nil_iff.mp hnone]
  · simp [Item.brings, Ident.plain, Function.comp_def]

theorem Tracks.names_uses (h : Tracks base ownPath own paths imports) :
    (imports.uses.flatMap (·.getLast?.toList)).map (·.name) = paths.filterMap importableTail? := by
  have huses := h.uses
  have himported := h.imported
  clear h
  generalize imports.uses = uses at huses ⊢
  induction huses with
  | nil => rfl
  | cons hpath _ ih =>
      obtain ⟨⟨tail, htail, _⟩, hrest⟩ := List.forall_mem_cons.mp himported
      rw [List.flatMap_cons, List.map_append, ih hrest, List.filterMap_cons_some htail,
        getLast?_of_path? hpath htail]
      rfl

theorem Tracks.mem_names_uses (h : Tracks base ownPath own paths imports) {n : String} :
    n ∈ (imports.uses.flatMap (·.getLast?.toList)).map (·.name) →
      ∃ path ∈ paths, importableTail? path = some n ∧ n ∉ base := by
  rw [h.names_uses, List.mem_filterMap]
  rintro ⟨path, hpath, htail⟩
  obtain ⟨tail, htail', hfree, _⟩ := h.imported path hpath
  cases htail.symm.trans htail'
  exact ⟨path, hpath, htail, hfree⟩

/-- No name is handed out twice. -/
theorem Tracks.nodup_broughtNames
    (h : Tracks (imports.startNames defined) ownPath own paths imports)
    (hruntime : imports.runtime.Nodup) : imports.broughtNames.Nodup := by
  rw [broughtNames_eq, List.nodup_append]
  refine ⟨?_, ?_, fun n hn m hm => ?_⟩
  · exact hruntime.map_on fun a _ b _ =>
      List.inj_on_of_nodup_map nodup_map_name (RuntimeItem.mem_all a) (RuntimeItem.mem_all b)
  · rw [h.names_uses]
    have htails : (paths.map importableTail?).filterMap id = paths.filterMap importableTail? := by
      rw [List.filterMap_map]
      rfl
    rw [← htails]
    exact h.nodup.filterMap fun a a' b hb hb' => hb.trans hb'.symm
  · obtain ⟨path, _, _, hfree⟩ := h.mem_names_uses hm
    rintro rfl
    exact hfree (List.mem_append_right _ hn)

theorem Tracks.broughtNames_free (h : Tracks (imports.startNames defined) ownPath own paths imports)
    (hruntime : ∀ item ∈ imports.runtime, item.name ∉ reservedNames ++ defined) :
    ∀ n ∈ imports.broughtNames, n ∉ reservedNames ++ defined := by
  rw [broughtNames_eq, List.forall_mem_append, List.forall_mem_map]
  refine ⟨hruntime, fun n hn => ?_⟩
  obtain ⟨path, _, _, hfree⟩ := h.mem_names_uses hn
  exact fun hmem => hfree (List.mem_append_left _ hmem)

end

/-! ## Spelling -/

/-- A path other than that of the file's own item, with colons, and read as its own tokens. -/
structure IsForeign (ownPath path : String) : Prop where
  ne : path ≠ ownPath
  colons : HasColons path
  keeps : KeepsTokens path

/-- The item of the client library is spelled behind `front`, as an expression and as a type. -/
def SpellsRuntime (imports : Imports) (item : RuntimeItem) (front : List Ident) : Prop :=
  imports.runtimePath item = front ++ [.plain item.name] ∧
    ∀ args, imports.runtimeType item args = .path front (.plain item.name) args

/-- How a file's table of imports names what the file refers to. -/
structure NamesApart (imports : Imports) (ownPath : String) (defined : List String) : Prop where
  nodup : imports.broughtNames.Nodup
  free : ∀ n ∈ imports.broughtNames, n ∉ reservedNames ++ defined
  /-- A path is spelled by its last segment if it is imported, and else read as it stands. -/
  path_cases : ∀ path type, path ≠ ownPath → imports.typeAt path = .ok type →
    (∃ i, type = .named i ∧ type.IsName i ∧ imports.Brings path i) ∨
      TypeText.ofText? path = some type
  written : ∀ path type, IsForeign ownPath path → TypeText.ofText? path = some type →
    type.Writes path ∧ ∀ i, ¬ type.IsName i
  runtime_cases : ∀ item,
    imports.SpellsRuntime item [] ∧
        (∃ names, .use false [clientLibrary] names ∈ imports.items ∧ .plain item.name ∈ names) ∨
      imports.SpellsRuntime item [clientLibrary]
  apart : ∀ path path' type type' i i', IsForeign ownPath path → IsForeign ownPath path' →
    imports.typeAt path = .ok type → imports.typeAt path' = .ok type' →
    type.IsName i → type'.IsName i' → i.name = i'.name → path = path'
  apart_runtime : ∀ path type i item, IsForeign ownPath path → imports.typeAt path = .ok type →
    type.IsName i → imports.SpellsRuntime item [] → i.name ≠ item.name

section

variable {item : Code.Model} {defined : List String} {ownPath path : String} {own : Ident}
  {paths : List String} {imports : Imports} {type : Ty} {i : Ident}

theorem IsForeign.written (h : IsForeign ownPath path) (htext : TypeText.ofText? path = some type) :
    type.Writes path ∧ ∀ i, ¬ type.IsName i :=
  have hwrites := h.keeps type htext
  ⟨hwrites, hwrites.not_isName h.colons⟩

/-- A path that is not imported under its last segment is read as it stands. -/
theorem Tracks.foreign_cases (h : Tracks (imports.startNames defined) ownPath own paths imports)
    (hof : Imports.of item ownPath defined = .ok imports) (hne : path ≠ ownPath)
    (htype : imports.typeAt path = .ok type) :
    (∃ tail, path ∈ paths ∧ importableTail? path = some tail ∧ type = .named (.plain tail)) ∨
      TypeText.ofText? path = some type := by
  rcases h.typeAt_cases htype with ⟨hown, _⟩ | ⟨hmem, tail, htail, hname⟩ | ⟨form, tokens, hname⟩
  · exact absurd hown hne
  · exact Or.inl ⟨tail, hmem, htail, hname⟩
  · rcases spelled_of_typeAt hof htype with ⟨i, hnamed⟩ | htext
    · rw [hname] at hnamed
      cases hnamed
    · exact Or.inr htext

theorem Tracks.foreign_name (h : Tracks (imports.startNames defined) ownPath own paths imports)
    (hof : Imports.of item ownPath defined = .ok imports) (hpath : IsForeign ownPath path)
    (htype : imports.typeAt path = .ok type) (hi : type.IsName i) :
    path ∈ paths ∧ importableTail? path = some i.name := by
  rcases h.foreign_cases hof hpath.ne htype with ⟨tail, hmem, htail, rfl⟩ | htext
  · rcases hi.2 with e | ⟨form, e⟩
    · cases e
      exact ⟨hmem, htail⟩
    · cases e
  · exact absurd hi ((hpath.written htext).2 i)

theorem spellsRuntime_cases (imports : Imports) (item : RuntimeItem) :
    item ∈ imports.runtime ∧ imports.SpellsRuntime item [] ∨
      item ∉ imports.runtime ∧ imports.SpellsRuntime item [clientLibrary] := by
  by_cases h : item ∈ imports.runtime
  · exact Or.inl ⟨h, by rw [runtimePath, if_pos h]; rfl, fun args => by rw [runtimeType, if_pos h]⟩
  · exact Or.inr ⟨h, by rw [runtimePath, if_neg h]; rfl, fun args => by rw [runtimeType, if_neg h]⟩

theorem exists_use_runtime {item : RuntimeItem} (h : item ∈ imports.runtime) :
    ∃ names, .use false [clientLibrary] names ∈ imports.items ∧ .plain item.name ∈ names := by
  have hname : Ident.plain item.name ∈ imports.runtime.map fun item => Ident.plain item.name :=
    List.mem_map_of_mem h
  refine ⟨_, List.mem_append_left _ ?_, hname⟩
  rw [if_neg (List.ne_nil_of_mem hname)]
  exact List.mem_singleton_self _

/-- The table of a file imports every name once, spells paths by imported names or in full, and
gives a short name to one thing only. -/
theorem of_namesApart {runtime : List RuntimeItem} {artifacts : List String}
    (h : Imports.of { item with dependencies := .of runtime artifacts } ownPath defined =
      .ok imports) : imports.NamesApart ownPath defined := by
  obtain ⟨own, paths, _, htracks, _, _, hruntime⟩ := of_ok h
  have hlisted : imports.runtime.Nodup := by
    have hall : (RuntimeItem.all.filter (· ∈ runtime)).Nodup :=
      (List.Nodup.of_map _ nodup_map_name).filter _
    rw [hruntime]
    exact hall.filter _
  have hfree : ∀ r ∈ imports.runtime, r.name ∉ reservedNames ++ defined := by
    rw [hruntime]
    exact fun r hr => of_decide_eq_true (List.mem_filter.mp hr).2
  constructor
  case nodup => exact htracks.nodup_broughtNames hlisted
  case free => exact htracks.broughtNames_free hfree
  case path_cases =>
    intro path type hne htype
    rcases htracks.foreign_cases h hne htype with ⟨tail, hmem, htail, rfl⟩ | htext
    · obtain ⟨hbrings, hident⟩ := htracks.brings hmem htail
      exact Or.inl ⟨.plain tail, rfl, ⟨hident, Or.inl rfl⟩, hbrings⟩
    · exact Or.inr htext
  case written => exact fun path type hpath htext => hpath.written htext
  case runtime_cases =>
    intro r
    rcases imports.spellsRuntime_cases r with ⟨hr, hspelled⟩ | ⟨_, hspelled⟩
    · exact Or.inl ⟨hspelled, exists_use_runtime hr⟩
    · exact Or.inr hspelled
  case apart =>
    intro path path' type type' i i' hpath hpath' htype htype' hi hi' hsame
    obtain ⟨hmem, htail⟩ := htracks.foreign_name h hpath htype hi
    obtain ⟨hmem', htail'⟩ := htracks.foreign_name h hpath' htype' hi'
    rw [← hsame, ← htail] at htail'
    exact List.inj_on_of_nodup_map htracks.nodup hmem hmem' htail'.symm
  case apart_runtime =>
    intro path type i r hpath htype hi hspelled hsame
    obtain ⟨hmem, htail⟩ := htracks.foreign_name h hpath htype hi
    obtain ⟨tail, htail', hnew, _⟩ := htracks.imported path hmem
    cases htail.symm.trans htail'
    rcases imports.spellsRuntime_cases r with ⟨hr, _⟩ | ⟨_, hqualified⟩
    · exact hnew (List.mem_append_right _ (hsame ▸ List.mem_map_of_mem hr))
    · have hboth := hspelled.1.symm.trans hqualified.1
      simp at hboth

end

/-- What a file with a list of paths refers to: some of them end in names that are taken. -/
def feedNeeds : Dependencies :=
  .of [.request, .value] ["chrono::DateTime<chrono::Utc>", "crate::graphql::types::Post",
    "crate::graphql::types::Value", "other::Post", "other::Request"]

/-- A file that defines two names and refers to paths. -/
def feed : Code.Model := ⟨["types"], "User", "User", none, .of [] [], .customScalar⟩

theorem feed_namesApart : ∃ imports,
    Imports.of { feed with dependencies := feedNeeds } "crate::graphql::types::User"
      ["User", "Value"] = .ok imports ∧
    imports.broughtNames = ["Request", "Post"] ∧
    IsForeign "crate::graphql::types::User" "crate::graphql::types::Post" ∧
    imports.NamesApart "crate::graphql::types::User" ["User", "Value"] := by
  have hrun : ∃ imports,
      Imports.of { feed with dependencies := feedNeeds } "crate::graphql::types::User"
        ["User", "Value"] = .ok imports ∧
      decide (imports.broughtNames = ["Request", "Post"]) = true :=
    Outcome.any_eq_true.mp (by decide +kernel)
  obtain ⟨imports, himports, hbrought⟩ := hrun
  have hpath : joinPath ["crate", "graphql", "types", "Post"] = "crate::graphql::types::Post" := by
    decide +kernel
  have hkeeps : KeepsTokens (joinPath ["crate", "graphql", "types", "Post"]) :=
    keepsTokens_joinPath (by decide) (by decide +kernel) (by decide +kernel) (by decide)
  have hcolons := hasColons_joinPath "crate" "graphql" ["types", "Post"]
  rw [hpath] at hkeeps hcolons
  have hapart := @of_namesApart feed _ _ _ _ _ himports
  exact ⟨imports, himports, of_decide_eq_true hbrought, ⟨by decide, hcolons, hkeeps⟩, hapart⟩

end Imports

end Graphwright.Rust
