import Graphwright.Proofs.Registry.Roots

/-!
# Which documents have a registry

A definition is refused because a type, a root object or a built-in scalar has its name. Each of
these is looked up in a place of its own, and which of them meets it depends on the order of the
definitions. Main statement: for two roots with names of their own it comes to one condition on the
document as a whole, and what the registry of such a document holds can be read off the document.
-/
namespace Graphwright.Registry

open Schema (Definition Document Roots)

/-- The definition declares a built-in scalar again. -/
def redeclares (d : Definition) : Bool :=
  d.shape = .scalar ∧ (Primitive.ofName? d.name).isSome = true

/-- The definition is an object type with the name of a root. -/
def isRoot (roots : Roots) (d : Definition) : Bool :=
  isObject (some roots.query) d || isObject (some roots.mutation) d

/-- What a document and the substitutions in it have to be like. -/
structure Acceptable (document : Document) (substitutions : Substitutions) : Prop where
  nodup : ((document.definitions.filter (!redeclares ·)).map (·.name)).Nodup
  notBuiltin : ∀ d ∈ document.definitions, redeclares d = false → Primitive.ofName? d.name = none
  operations : ∀ d ∈ document.definitions, isRoot document.roots d = true →
    ((fieldsOf d.shape).map (·.name)).Nodup
  paths : ∀ e ∈ substitutions, ∃ c ∈ e.2.toList, Text.isBlank c = false

/-- What the registry of a document holds. -/
structure Represents (document : Document) (home : Namespace) (substitutions : Substitutions)
    (r : Registry) : Prop where
  home_eq : r.home = home
  types : r.types.map (·.definition) =
    document.definitions.filter fun d => !redeclares d && !isRoot document.roots d
  queries : r.queries = objectFields document.definitions (some document.roots.query)
  mutations : r.mutations = objectFields document.definitions (some document.roots.mutation)
  paths : ∀ t ∈ r.types, t.generatedPath = home.typePath t.name ∧
    t.artifactPath = (Entries.get? t.name substitutions).getD t.generatedPath
  /-- Substitutions for names that no type has come to nothing. -/
  unused : ∃ warnings,
    build document home (substitutions.filter (·.1 ∈ r.names)) = .ok (r, warnings)

section

variable {document : Document} {home : Namespace} {substitutions : Substitutions} {roots : Roots}
  {ds : List Definition} {d : Definition}

/-! ## Roots and scalars -/

theorem isRoot_eq (h : roots.query ≠ roots.mutation) :
    isRoot roots d = (rootKind? roots d).isSome := by
  have hkind : ∀ kind, rootKind? roots d = some kind ↔
      isObject (some (roots.name kind)) d = true := by
    intro kind
    rw [rootKind?_eq_some_iff]
    cases kind with
    | query => rfl
    | mutation => rw [Roots.root?, if_neg h.symm]; rfl
  rw [Bool.eq_iff_iff, Option.isSome_iff_exists, exists_kind, hkind, hkind, isRoot,
    Bool.or_eq_true_iff]
  rfl

/-- A root object is no scalar. -/
theorem rootKind?_of_redeclares (h : redeclares d = true) : rootKind? roots d = none := by
  rw [rootKind?, (of_decide_eq_true h).1]

/-- Whatever takes no name declares a built-in scalar again, if it can be registered. -/
theorem redeclares_eq (h : takesName roots d = false → d.shape = .scalar) :
    redeclares d = !takesName roots d := by
  cases htakes : takesName roots d with
  | true =>
      refine decide_eq_false fun hd => ?_
      have hredeclares : redeclares d = true := decide_eq_true hd
      have hbuiltin := Option.isNone_eq_false_iff.mpr hd.2
      rw [takesName, rootKind?_of_redeclares hredeclares, hbuiltin] at htakes
      cases htakes
  | false =>
      obtain ⟨_, hbuiltin⟩ := Bool.or_eq_false_iff.mp htakes
      exact decide_eq_true ⟨h htakes, Option.isNone_eq_false_iff.mp hbuiltin⟩

theorem isBlankText_eq_false {s : String} :
    Text.isBlankText s = false ↔ ∃ c ∈ s.toList, Text.isBlank c = false := by
  simp [Text.isBlankText]

/-! ## Accepted documents -/

theorem registrable_iff (hroots : document.roots.query ≠ document.roots.mutation)
    (hbuiltin : NoRootBuiltin document.roots) :
    Registrable document.roots document.definitions ∧
        (∀ e ∈ substitutions, Text.isBlankText e.2 = false) ↔
      Acceptable document substitutions := by
  have hfilter : (∀ d ∈ document.definitions, takesName document.roots d = false →
      d.shape = .scalar) → document.definitions.filter (takesName document.roots) =
        document.definitions.filter (!redeclares ·) := by
    intro hscalar
    refine List.filter_congr fun d hd => ?_
    rw [redeclares_eq (hscalar d hd), Bool.not_not]
  constructor
  · rintro ⟨h, hpaths⟩
    refine ⟨hfilter h.scalar ▸ h.nodup, fun d hd hredeclares => ?_, fun d hd hroot => ?_,
      fun e he => isBlankText_eq_false.mp (hpaths e he)⟩
    · rw [redeclares_eq (h.scalar d hd), Bool.not_eq_false'] at hredeclares
      rcases Bool.or_eq_true_iff.mp hredeclares with hroot | hnone
      · exact hbuiltin.ofName? hroot
      · exact Option.isNone_iff_eq_none.mp hnone
    · exact h.operations d hd (isRoot_eq hroots ▸ hroot)
  · intro h
    have hscalar : ∀ d ∈ document.definitions, takesName document.roots d = false →
        d.shape = .scalar := by
      intro d hd htakes
      by_contra hshape
      have hredeclares : redeclares d = false := decide_eq_false fun hd => hshape hd.1
      rw [takesName, h.notBuiltin d hd hredeclares] at htakes
      simp at htakes
    refine ⟨⟨hfilter hscalar ▸ h.nodup, hscalar, fun d hd hroot => ?_⟩,
      fun e he => isBlankText_eq_false.mpr (h.paths e he)⟩
    exact h.operations d hd (isRoot_eq hroots ▸ hroot)

/-- The types of an accepted document are what is left without roots and redeclared scalars. -/
theorem isType_eq (hroots : document.roots.query ≠ document.roots.mutation)
    (h : Acceptable document substitutions) (hd : d ∈ document.definitions) :
    isType document.roots d = (!redeclares d && !isRoot document.roots d) := by
  rw [isRoot_eq hroots, isType, Option.not_isSome, Bool.and_comm]
  cases hredeclares : redeclares d with
  | true =>
      rw [Option.isNone_eq_false_iff.mpr (of_decide_eq_true hredeclares).2]
      rfl
  | false =>
      rw [h.notBuiltin d hd hredeclares]
      rfl

/-! ## Substitutions for names without a type -/

theorem declared_filter (htable : (Entries.names substitutions).Nodup) :
    declared document home
        (substitutions.filter (·.1 ∈ (declared document home substitutions).names)) =
      declared document home substitutions := by
  rw [names_declared]
  have hnodup : (Entries.names (substitutions.filter fun e =>
      decide (e.1 ∈ (document.definitions.filter (isType document.roots)).map (·.name)))).Nodup :=
    htable.sublist (List.filter_sublist.map _)
  rw [declared, declared]
  congr 1
  refine List.map_congr_left fun d hd => ?_
  rw [registered, registered, replacement?, replacement?, Entries.collect_eq hnodup,
    Entries.collect_eq htable,
    Entries.get?_filter fun _ => decide_eq_true (List.mem_map_of_mem hd)]

theorem represents_of_build (hroots : document.roots.query ≠ document.roots.mutation)
    (htable : (Entries.names substitutions).Nodup) (hacceptable : Acceptable document substitutions)
    {r : Registry} {warnings : List Warning}
    (h : build document home substitutions = .ok (r, warnings)) :
    Represents document home substitutions r := by
  have hr := eq_declared_of_build h
  have hoperations := (hasRoots_of_build h).operations
  refine ⟨(wellFormed_of_build h).home_eq, ?_, hoperations .query, ?_, fun t ht => ⟨?_, ?_⟩, ?_⟩
  · rw [hr, declared, List.map_map]
    refine (List.map_id _).trans (List.filter_congr fun d hd => isType_eq hroots hacceptable hd)
  · have hmutation := hoperations .mutation
    rwa [Roots.root?, if_neg hroots.symm] at hmutation
  · exact (wellFormed_of_build h).path t ht
  · rw [hr] at ht
    obtain ⟨d, _, rfl⟩ := List.mem_map.mp ht
    rw [RegisteredType.artifactPath, registered, replacement?, Entries.collect_eq htable]
    rfl
  · obtain ⟨hdraft, hpaths⟩ := build_ok.mp ⟨r, warnings, h⟩
    obtain ⟨r', warnings', h'⟩ := build_ok.mpr ⟨hdraft, fun e he =>
      hpaths e (List.mem_of_mem_filter (p := (·.1 ∈ r.names)) he)⟩
    refine ⟨warnings', ?_⟩
    rw [h', eq_declared_of_build h', hr, declared_filter htable]

/-- For two roots whose names are not built in, a document has a registry exactly if it is
acceptable with the substitutions, and the registry holds its types and operations in order, with
the paths of the items that stand for the types. -/
theorem build_acceptable (hroots : document.roots.query ≠ document.roots.mutation)
    (hbuiltin : NoRootBuiltin document.roots) (htable : (Entries.names substitutions).Nodup) :
    ((∃ r warnings, build document home substitutions = .ok (r, warnings)) ↔
        Acceptable document substitutions) ∧
      ∀ r warnings, build document home substitutions = .ok (r, warnings) →
        Represents document home substitutions r := by
  have hiff : (∃ r warnings, build document home substitutions = .ok (r, warnings)) ↔
      Acceptable document substitutions := by
    rw [build_ok, foldlM_add_ok hbuiltin, registrable_iff hroots hbuiltin]
  exact ⟨hiff, fun r warnings h =>
    represents_of_build hroots htable (hiff.mp ⟨r, warnings, h⟩) h⟩

end

/-- The roots stand between scalars, one of which is built in. -/
def mixedDocument : Document where
  definitions := [⟨"Date", none, .scalar⟩,
    ⟨"Mutation", none, .object [] [⟨"touch", none, [], .named "Date"⟩]⟩,
    ⟨"Int", none, .scalar⟩,
    ⟨"Query", none, .object [] [⟨"today", none, [], .named "Date"⟩,
      ⟨"count", none, [], .named "Int"⟩]⟩,
    ⟨"Color", none, .enumeration [⟨"RED", none⟩]⟩]
  roots := {}

/-- One of the two replaced names has no type. -/
def mixedSubstitutions : Substitutions :=
  [("Date", "chrono::NaiveDate"), ("Time", "chrono::NaiveTime")]

theorem build_acceptable_mixedDocument : ∃ r warnings,
    build mixedDocument .default mixedSubstitutions = .ok (r, warnings) ∧
      r.names = ["Date", "Color"] ∧ Represents mixedDocument .default mixedSubstitutions r := by
  obtain ⟨⟨r, warnings⟩, hr, hnames⟩ : ∃ out,
      build mixedDocument .default mixedSubstitutions = .ok out ∧
        decide (out.1.names = ["Date", "Color"]) = true :=
    Outcome.any_eq_true.mp (by decide +kernel)
  have hroots : mixedDocument.roots.query ≠ mixedDocument.roots.mutation := by decide
  have htable : (Entries.names mixedSubstitutions).Nodup := by decide
  obtain ⟨_, hrepresents⟩ := build_acceptable hroots ⟨rfl, rfl⟩ htable
  exact ⟨r, warnings, hr, of_decide_eq_true hnames, hrepresents r warnings hr⟩

end Graphwright.Registry
