import Graphwright.Proofs.Client.Coverage
import Graphwright.Proofs.Client.Spelling
import Graphwright.Proofs.Rust.Failures
import Graphwright.Proofs.Rust.ReadPaths

/-!
# Namespaces whose paths can be read

A namespace consists of words, and some words are keywords. The paths of its items are paths of the
target language exactly if none of its segments is a keyword that cannot stand in one, and the type
is not named by an underscore alone. Writing out a client fails on no other path of it, unless the
namespace starts with the one keyword that may stand in a path and starts no type.
-/
namespace Graphwright

open Schema (IsName)

/-! ## Names of items -/

theorem isPlainIdentifier_cons {c : Char} {cs : List Char} (hc : (c.isAlpha || c = '_') = true)
    (hcs : ∀ d ∈ cs, d.isAlphanum = true ∨ d = '_') (hne : c :: cs ≠ ['_']) :
    isPlainIdentifier (c :: cs) = true := by
  simp only [isPlainIdentifier, hc, Bool.true_and, Bool.and_eq_true, List.all_eq_true,
    Bool.or_eq_true, decide_eq_true_eq]
  refine ⟨hcs, ?_⟩
  by_contra h
  obtain ⟨rfl, rfl⟩ : c = '_' ∧ cs = [] := by simpa [not_or] using h
  exact hne rfl

/-- A capitalised name is a name again, and an underscore alone only if it was one. -/
theorem capitalize_of_isName {name : String} (h : IsName name) :
    ∃ c cs, (Text.capitalize name).toList = c :: cs ∧ (c.isAlpha || c = '_') = true ∧
      (∀ d ∈ cs, d.isAlphanum = true ∨ d = '_') ∧ (c :: cs = ['_'] → name = "_") := by
  have hplain := Schema.isPlain_of_isName h
  obtain ⟨c, cs, hname, hc, _⟩ := h
  rcases Text.capitalize_cases hplain with ⟨hnil, _⟩ | ⟨c', cs', hname', hcap⟩
  · rw [hname] at hnil
    cases hnil
  · cases hname.symm.trans hname'
    rw [Text.IsPlain, hname] at hplain
    obtain ⟨hfirst, hrest⟩ := List.forall_mem_cons.mp hplain
    obtain ⟨-, -, halpha⟩ := Text.toUpper_of_plain hfirst
    refine ⟨_, _, hcap, ?_, hrest, fun e => ?_⟩
    · rw [halpha]
      rcases Bool.or_eq_true_iff.mp hc with hc | hc
      · rw [hc, Bool.true_or]
      · rw [of_decide_eq_true hc]
        decide
    · obtain ⟨hunderscore, rfl⟩ := List.cons.inj e
      rw [hunderscore] at halpha
      have hfirst : c = '_' := of_decide_eq_true
        ((Bool.or_eq_true_iff.mp hc).resolve_left (by rw [← halpha]; decide))
      rw [← String.toList_inj, hname, hfirst]
      rfl

namespace Rust

/-- A word that starts with no small letter is no keyword, or one that a path may contain. -/
theorem isMember_of_not_isLower {name : String} {c : Char} {cs : List Char}
    (hname : name.toList = c :: cs) (hc : (c.isAlpha || c = '_') = true)
    (hcs : ∀ d ∈ cs, d.isAlphanum = true ∨ d = '_') (hlower : c.isLower = false)
    (hne : c :: cs ≠ ['_']) :
    isPlainIdentifier name.toList = true ∧ (Ident.plain name).isMember = true := by
  refine ⟨hname ▸ isPlainIdentifier_cons hc hcs hne, ?_⟩
  have hblank : name ≠ "_" := by
    rintro rfl
    exact hne hname.symm
  have hraw : name ∉ rawKeywords := by
    intro h
    have hall := (by decide : ∀ k ∈ rawKeywords, k.toList.head?.all Char.isLower = true) name h
    rw [hname] at hall
    exact absurd (hlower.symm.trans hall) (by decide)
  rw [Ident.isMember, Bool.or_eq_true, Bool.not_eq_true', decide_eq_true_eq]
  by_cases hplace : name ∈ pathKeywords
  · exact Or.inr ((by decide : ∀ k ∈ pathKeywords, k ≠ "_" →
      k ∈ ["self", "Self", "super", "crate", "try"]) name hplace hblank)
  · left
    simp [Ident.isKeyword, Ident.plain, isKeyword, hraw, hplace]

theorem isPlainSegment_capitalize {name : String} (h : IsName name) :
    plainSegments?.isPlain (Text.capitalize name) = true := by
  obtain ⟨c, cs, hcap, _⟩ := capitalize_of_isName h
  have hplain := Text.isPlain_capitalize (Schema.isPlain_of_isName h)
  refine Bool.and_eq_true_iff.mpr ⟨decide_eq_true ?_, List.all_eq_true.mpr fun d hd => ?_⟩
  · intro e
    rw [e] at hcap
    cases hcap
  · simpa using hplain d hd

/-- The name of a schema type can stand in a path, unless it is an underscore. -/
theorem isMember_capitalize {name : String} (h : IsName name) (hne : name ≠ "_") :
    isPlainIdentifier (Text.capitalize name).toList = true ∧
      (Ident.plain (Text.capitalize name)).isMember = true := by
  obtain ⟨c, cs, hcap, hc, hcs, hblank⟩ := capitalize_of_isName h
  exact isMember_of_not_isLower hcap hc hcs (Text.not_isLower_of_capitalize hcap)
    fun e => hne (hblank e)

/-- The name of a selection builder can, whatever it is built for. -/
theorem isMember_builder {name : String} (h : IsName name) :
    isPlainIdentifier (Text.capitalize name ++ "FieldSelection").toList = true ∧
      (Ident.plain (Text.capitalize name ++ "FieldSelection")).isMember = true := by
  obtain ⟨c, cs, hcap, hc, hcs, _⟩ := capitalize_of_isName h
  have hending : Text.IsPlain "FieldSelection" := by simp [Text.IsPlain]
  have hlist : (Text.capitalize name ++ "FieldSelection").toList =
      c :: (cs ++ "FieldSelection".toList) := by
    rw [String.toList_append, hcap, List.cons_append]
  exact isMember_of_not_isLower hlist hc (List.forall_mem_append.mpr ⟨hcs, hending⟩)
    (Text.not_isLower_of_capitalize hcap)
    fun e => absurd (List.append_eq_nil_iff.mp (List.cons.inj e).2).2 (by decide)

end Rust

/-! ## Paths of items -/

namespace Namespace

variable (home : Namespace)

/-- Each segment may stand in a path. -/
def FormsPaths : Prop := ∀ s ∈ home.segments, (Rust.Ident.plain s).isMember = true

instance : Decidable home.FormsPaths := inferInstanceAs (Decidable (∀ s ∈ _, _))

theorem segments_ne_nil : home.segments ≠ [] := by
  rw [segments, ne_eq, List.map_eq_nil_iff]
  exact pathSegments_ne_nil _

theorem isPlainIdentifier_segments :
    ∀ s ∈ home.segments, isPlainIdentifier s.toList = true := by
  intro s hs
  obtain ⟨segment, hsegment, rfl⟩ := List.mem_map.mp hs
  rw [String.toList_ofList]
  exact home.isPlainIdentifier_of_mem hsegment

theorem joinPath_segments : joinPath home.segments = home.root :=
  String.toList_inj.mp (joinPath_pathSegments home.root.toList)

theorem typePath_eq (name : String) :
    home.typePath name = joinPath (home.segments ++ ["types", Text.capitalize name]) := by
  rw [← String.toList_inj, joinPath_append home.segments_ne_nil (List.cons_ne_nil _ _),
    joinPath_segments, joinPath_cons_cons, joinPath_singleton, toList_typePath]

theorem selectionPath_eq (name : String) :
    home.selectionPath name =
      joinPath (home.segments ++ [Text.capitalize name ++ "FieldSelection"]) := by
  rw [← String.toList_inj, joinPath_append home.segments_ne_nil (List.cons_ne_nil _ _),
    joinPath_segments, joinPath_singleton, toList_selectionPath, String.toList_append]

section

variable {name : String} (h : IsName name)

include h

theorem isSome_path?_typePath :
    (Rust.path? (home.typePath name)).isSome = true ↔ home.FormsPaths ∧ name ≠ "_" := by
  have hwords := home.isPlainIdentifier_segments
  have hplain : ∀ s ∈ home.segments ++ ["types", Text.capitalize name],
      Rust.plainSegments?.isPlain s = true :=
    List.forall_mem_append.mpr ⟨fun s hs => Rust.isPlain_of_isPlainIdentifier (hwords s hs),
      List.forall_mem_cons.mpr ⟨by decide,
        List.forall_mem_singleton.mpr (Rust.isPlainSegment_capitalize h)⟩⟩
  have hlast : (Rust.pathSegment? (Text.capitalize name)).isSome = true ↔ name ≠ "_" := by
    constructor
    · rintro hsome rfl
      exact absurd hsome (by decide)
    · intro hne
      obtain ⟨hword, hmember⟩ := Rust.isMember_capitalize h hne
      exact (Rust.isSome_pathSegment? hword).mpr hmember
  rw [typePath_eq, Rust.isSome_path?_joinPath (by simp) hplain, List.forall_mem_append,
    List.forall_mem_cons, List.forall_mem_singleton, hlast]
  refine and_congr (forall₂_congr fun s hs => Rust.isSome_pathSegment? (hwords s hs)) ?_
  exact and_iff_right (by decide)

theorem isSome_path?_selectionPath :
    (Rust.path? (home.selectionPath name)).isSome = true ↔ home.FormsPaths := by
  have hwords := home.isPlainIdentifier_segments
  obtain ⟨hword, hmember⟩ := Rust.isMember_builder h
  have hplain : ∀ s ∈ home.segments ++ [Text.capitalize name ++ "FieldSelection"],
      isPlainIdentifier s.toList = true :=
    List.forall_mem_append.mpr ⟨hwords, List.forall_mem_singleton.mpr hword⟩
  have hmany : 1 < (home.segments ++ [Text.capitalize name ++ "FieldSelection"]).length := by
    have hpos := List.length_pos_of_ne_nil home.segments_ne_nil
    simpa using hpos
  rw [selectionPath_eq, Rust.isSome_path?_joinPath hmany fun s hs =>
      Rust.isPlain_of_isPlainIdentifier (hplain s hs),
    List.forall_mem_append, List.forall_mem_singleton, Rust.isSome_pathSegment? hword]
  rw [and_iff_left hmember]
  exact forall₂_congr fun s hs => Rust.isSome_pathSegment? (hwords s hs)

end

/-- What is put behind the segments of a namespace makes a type with them. -/
theorem isSome_ofText? {back : List String} (hback : ∀ s ∈ back,
      isPlainIdentifier s.toList = true ∧ (Rust.Ident.plain s).isMember = true)
    (hhome : home.FormsPaths) (hstart : home.segments.head? ≠ some "try") :
    (Rust.TypeText.ofText? (joinPath (home.segments ++ back))).isSome = true := by
  obtain ⟨first, rest, hsegments⟩ := List.exists_cons_of_ne_nil home.segments_ne_nil
  rw [Rust.TypeText.ofText?_joinPath (List.append_ne_nil_of_left_ne_nil home.segments_ne_nil _)
    (List.forall_mem_append.mpr ⟨hhome, fun s hs => (hback s hs).2⟩)
    (List.forall_mem_append.mpr ⟨home.isPlainIdentifier_segments, fun s hs => (hback s hs).1⟩)]
  · rfl
  · rwa [hsegments, List.cons_append, List.head?_cons, ← List.head?_cons, ← hsegments]

theorem isSome_ofText?_typePath {name : String} (h : IsName name) (hne : name ≠ "_")
    (hhome : home.FormsPaths) (hstart : home.segments.head? ≠ some "try") :
    (Rust.TypeText.ofText? (home.typePath name)).isSome = true := by
  rw [typePath_eq]
  exact home.isSome_ofText? (List.forall_mem_cons.mpr ⟨by decide,
    List.forall_mem_singleton.mpr (Rust.isMember_capitalize h hne)⟩) hhome hstart

theorem isSome_ofText?_selectionPath {name : String} (h : IsName name) (hhome : home.FormsPaths)
    (hstart : home.segments.head? ≠ some "try") :
    (Rust.TypeText.ofText? (home.selectionPath name)).isSome = true := by
  rw [selectionPath_eq]
  exact home.isSome_ofText? (List.forall_mem_singleton.mpr (Rust.isMember_builder h)) hhome hstart

end Namespace

/-! ## Clients -/

theorem path_of_isValuePath {home : Namespace} {r : Registry} (hr : r.WellFormed home)
    (hs : ∀ t ∈ r.types, t.substitution = none) {path : String}
    (h : Client.IsValuePath r path) :
    ∃ t ∈ r.types, path = home.typePath t.name ∨ path = home.selectionPath t.name := by
  rcases h with ⟨t, ht, _, rfl⟩ | ⟨t, ht, rfl⟩
  · refine ⟨t, ht, Or.inl ?_⟩
    rw [RegisteredType.artifactPath, hs t ht, Option.getD_none, hr.path t ht]
  · exact ⟨t, (Client.mem_selectable.mp ht).1, Or.inr (by rw [hr.home_eq])⟩

/-- Every path in a client without hand-written items is that of a type or of a builder. -/
theorem path_of_mem_itemPaths {home : Namespace} {r : Registry} {ms : List Code.Model}
    (hr : r.WellFormed home) (hs : ∀ t ∈ r.types, t.substitution = none)
    (hms : Client.models r = .ok ms) {path : String} (h : path ∈ ms.flatMap Rust.itemPaths) :
    ∃ t ∈ r.types, path = home.typePath t.name ∨ path = home.selectionPath t.name := by
  have hinterface : (∃ t ∈ Client.primary r .interface, t.generatedPath = path) →
      ∃ t ∈ r.types, path = home.typePath t.name ∨ path = home.selectionPath t.name := by
    rintro ⟨t, ht, rfl⟩
    have htypes := (Client.mem_primary.mp ht).1
    exact ⟨t, htypes, Or.inl (hr.path t htypes)⟩
  obtain ⟨m, hm, h⟩ := List.mem_flatMap.mp h
  obtain ⟨part, hemits⟩ := (Client.mem_models hms).mp hm
  have hcov := hemits.isCovered
  rcases List.mem_append.mp h with h | h
  · exact (hcov.values.declares path h).elim (path_of_isValuePath hr hs) hinterface
  · rcases List.mem_append.mp h with h | h
    · exact path_of_isValuePath hr hs (hcov.values.occurs path h)
    · exact hinterface (hcov.interfaces path h).2

/-- If only the path of one type is not read, this is what all failures are about. -/
theorem eq_typePath_of_not {home : Namespace} {r : Registry} (hr : r.WellFormed home)
    (reads : String → Prop)
    (htype : ∀ t ∈ r.types, t.name ≠ "_" → reads (home.typePath t.name))
    (hbuilder : ∀ t ∈ r.types, reads (home.selectionPath t.name)) {path : String}
    (hpath : ∃ t ∈ r.types, path = home.typePath t.name ∨ path = home.selectionPath t.name)
    (hnot : ¬ reads path) : "_" ∈ r.names ∧ path = home.typePath "_" := by
  obtain ⟨t, ht, rfl | rfl⟩ := hpath
  · by_cases hne : t.name = "_"
    · exact ⟨hne ▸ Registry.mem_names_of_find? (hr.find?_name ht), by rw [hne]⟩
    · exact absurd (htype t ht hne) hnot
  · exact absurd (hbuilder t ht) hnot

/-- The paths of a schema's items can be read if the namespace forms paths and no type is named by
an underscore, and on no other path a client fails to be written out. -/
theorem render_formsPaths {home : Namespace} {text : String} {r : Registry}
    {warnings : List Warning} {ms : List Code.Model}
    (hr : registryOfText home [] text = .ok (r, warnings)) (hms : Client.models r = .ok ms)
    (backend : Backend) :
    (∀ t ∈ r.types,
      ((Rust.path? (home.typePath t.name)).isSome = true ↔ home.FormsPaths ∧ t.name ≠ "_") ∧
      ((Rust.path? (home.selectionPath t.name)).isSome = true ↔ home.FormsPaths)) ∧
    (∀ path, backend.render home ms = .error (.invalidPath path) → home.FormsPaths →
      "_" ∈ r.names ∧ path = home.typePath "_") ∧
    ∀ path, backend.render home ms = .error (.invalidType path) → home.FormsPaths →
      home.segments.head? ≠ some "try" → "_" ∈ r.names ∧ path = home.typePath "_" := by
  obtain ⟨document, _, found, _, hbuild⟩ := registryOfText_ok hr
  have hnames : ∀ t ∈ r.types, IsName t.name := fun t ht => (isNamed_of_registryOfText hr t ht).1
  have hwell := Registry.wellFormed_of_build hbuild
  have hpaths : ∀ path ∈ ms.flatMap Rust.itemPaths,
      ∃ t ∈ r.types, path = home.typePath t.name ∨ path = home.selectionPath t.name := fun path h =>
    path_of_mem_itemPaths hwell
      (Registry.unsubstituted_of_build hbuild) hms h
  refine ⟨fun t ht => ⟨home.isSome_path?_typePath (hnames t ht),
    home.isSome_path?_selectionPath (hnames t ht)⟩, fun path hf hhome => ?_,
    fun path hf hhome hstart => ?_⟩
  · obtain ⟨hmem, hunread⟩ := backend.failsAt_render home ms _ hf
    refine eq_typePath_of_not hwell (fun path => (Rust.path? path).isSome = true)
      (fun t ht hne => (home.isSome_path?_typePath (hnames t ht)).mpr ⟨hhome, hne⟩)
      (fun t ht => (home.isSome_path?_selectionPath (hnames t ht)).mpr hhome) (hpaths path hmem) ?_
    rw [hunread]
    decide
  · obtain ⟨hmem, hunread⟩ := backend.failsAt_render home ms _ hf
    refine eq_typePath_of_not hwell (fun path => (Rust.TypeText.ofText? path).isSome = true)
      (fun t ht hne => home.isSome_ofText?_typePath (hnames t ht) hne hhome hstart)
      (fun t ht => home.isSome_ofText?_selectionPath (hnames t ht) hhome hstart)
      (hpaths path hmem) ?_
    rw [hunread]
    decide

/-- A schema whose operation refers to a type and to its builder. -/
def reference : String := "type Query \x7b a: T \x7d type T \x7b b: Int \x7d"

/-- No path of the schema is unread in the namespace that is used when none is given. -/
theorem render_formsPaths_default : ∃ r warnings ms,
    registryOfText .default [] reference = .ok (r, warnings) ∧ Client.models r = .ok ms ∧
    (∃ t ∈ r.types, (Rust.path? (Namespace.default.typePath t.name)).isSome = true) ∧
    ∀ path, Backend.rust.render .default ms ≠ .error (.invalidPath path) ∧
      Backend.rust.render .default ms ≠ .error (.invalidType path) := by
  have hrun : Outcome.any (registryOfText .default [] reference) (fun out =>
      Outcome.any (Client.models out.1) fun _ => out.1.names = ["T"]) = true := by
    decide +kernel
  obtain ⟨⟨r, warnings⟩, hr, hrun⟩ := Outcome.any_eq_true.mp hrun
  obtain ⟨ms, hms, htest⟩ := Outcome.any_eq_true.mp hrun
  have hnames : r.names = ["T"] := of_decide_eq_true htest
  obtain ⟨hread, hpath, htype⟩ := render_formsPaths hr hms .rust
  have hhome : Namespace.default.FormsPaths := by decide
  have hblank : "_" ∉ r.names := by rw [hnames]; decide
  obtain ⟨_, _, _, _, hbuild⟩ := registryOfText_ok hr
  obtain ⟨t, ht, hname⟩ : ∃ t ∈ r.types, t.name = "T" := List.mem_map.mp (by
    rw [← (Registry.wellFormed_of_build hbuild).names_eq, hnames]
    decide)
  refine ⟨r, warnings, ms, hr, hms, ⟨t, ht, (hread t ht).1.mpr ⟨hhome, by rw [hname]; decide⟩⟩,
    fun path => ⟨fun hf => hblank (hpath path hf hhome).1,
      fun hf => hblank (htype path hf hhome (by decide)).1⟩⟩

/-- A namespace one of whose segments is a keyword. -/
def keywordHome : Namespace := ⟨"crate::type", by decide⟩

/-- The path is accepted as a namespace, and yet a client in it is not written out. -/
theorem exists_render_invalidPath : ∃ r warnings ms path,
    Namespace.ofText "crate::type" = .ok keywordHome ∧
    registryOfText keywordHome [] reference = .ok (r, warnings) ∧ Client.models r = .ok ms ∧
    Backend.rust.render keywordHome ms = .error (.invalidPath path) := by
  have hrun : Outcome.any (registryOfText keywordHome [] reference) (fun out =>
      Outcome.any (Client.models out.1) fun ms =>
        Outcome.failsWith (Backend.rust.render keywordHome ms)
          (.invalidPath (keywordHome.selectionPath "T"))) = true := by
    decide +kernel
  obtain ⟨⟨r, warnings⟩, hr, hrun⟩ := Outcome.any_eq_true.mp hrun
  obtain ⟨ms, hms, hfails⟩ := Outcome.any_eq_true.mp hrun
  exact ⟨r, warnings, ms, keywordHome.selectionPath "T", rfl, hr, hms,
    Outcome.failsWith_eq_true.mp hfails⟩

end Graphwright
