import Graphwright.Proofs.Registry.Declared
import Graphwright.Proofs.Schema.Names

/-!
# Root types

Which object types of a document hold its operations. `Query` and `Mutation` stand until a schema
block names another type, each of them for itself, and an object type that stands for both holds
queries. Main statement: the operations are the fields of the types that stand, every other object
type is an output object, and these are the root types that the document declares exactly if no
default that it leaves out is the name of an object type, and no type with fields stands for both.
-/
namespace Graphwright

namespace Schema

/-! ## Schema blocks -/

/-- The root types that an entry names. -/
def Grammar.Entry.named : Grammar.Entry → List (Grammar.RootKind × String)
  | .schema named => named
  | _ => []

def Grammar.RootKind.of : OperationKind → Grammar.RootKind
  | .query => .query
  | .mutation => .mutation

/-- The root type for operations of a kind, as the last schema block to name one has it. -/
def namedRoot? (entries : List Grammar.Entry) (kind : OperationKind) : Option String :=
  (entries.flatMap (·.named)).reverse.lookup (.of kind)

def defaultRoot : OperationKind → String
  | .query => "Query"
  | .mutation => "Mutation"

/-- The root type that a document declares: with a schema block the one named there, if any, and
without a schema block the default. -/
def declaredRoot? (entries : List Grammar.Entry) (kind : OperationKind) : Option String :=
  if entries.any (fun e => e matches .schema _) then namedRoot? entries kind
  else some (defaultRoot kind)

def Roots.name (roots : Roots) : OperationKind → String
  | .query => roots.query
  | .mutation => roots.mutation

/-- The name of the object type that holds the operations of a kind. -/
def Roots.root? (roots : Roots) : OperationKind → Option String
  | .query => some roots.query
  | .mutation => if roots.mutation = roots.query then none else some roots.mutation

theorem Roots.name_replace (roots : Roots) (named : List (Grammar.RootKind × String))
    (kind : OperationKind) :
    (roots.replace named).name kind = (named.reverse.lookup (.of kind)).getD (roots.name kind) := by
  induction named generalizing roots with
  | nil => rfl
  | cons e rest ih =>
      obtain ⟨rootKind, typeName⟩ := e
      rw [List.reverse_cons, List.lookup_append, Option.getD_or]
      cases rootKind <;> cases kind <;> exact ih _

theorem name_ofEntries (entries : List Grammar.Entry) (kind : OperationKind) :
    (Document.ofEntries entries).1.roots.name kind =
      (namedRoot? entries kind).getD (defaultRoot kind) := by
  have hfold : ∀ roots : Roots, (entries.foldl (fun roots e => match e with
      | .schema named => roots.replace named
      | _ => roots) roots).name kind =
        ((entries.flatMap (·.named)).reverse.lookup (.of kind)).getD (roots.name kind) := by
    induction entries with
    | nil => exact fun _ => rfl
    | cons e rest ih =>
        intro roots
        rw [List.foldl_cons, ih, List.flatMap_cons, List.reverse_append, List.lookup_append,
          Option.getD_or]
        cases e with
        | schema named => exact congrArg _ (roots.name_replace named kind)
        | _ => rfl
  refine (hfold {}).trans ?_
  cases kind <;> rfl

theorem namedRoot?_eq_none {entries : List Grammar.Entry}
    (h : entries.any (fun e => e matches .schema _) = false) (kind : OperationKind) :
    namedRoot? entries kind = none := by
  have hnamed : entries.flatMap (·.named) = [] := by
    refine List.flatMap_eq_nil_iff.mpr fun e he => ?_
    have hentry := List.any_eq_false.mp h e he
    cases e with
    | schema named => exact absurd rfl hentry
    | _ => rfl
  rw [namedRoot?, hnamed]
  rfl

end Schema

namespace Registry

open Schema (Definition Document Roots)

section

variable {roots : Roots} {home : Namespace} {ds : List Definition} {d : Definition}
  {kind : OperationKind}

/-! ## Root objects -/

/-- The definition is an object type that has the name. -/
def isObject (name? : Option String) (d : Definition) : Bool :=
  d.category = .outputObject ∧ name? = some d.name

/-- The fields of the object type that has a name, if there is one. -/
def objectFields (ds : List Definition) (name? : Option String) : List Schema.Field :=
  ((ds.find? (isObject name?)).map (fieldsOf ·.shape)).getD []

/-- The operations are the fields of the root types, and all other object types are output
objects. -/
structure HasRoots (r : Registry) (ds : List Definition) (root? : OperationKind → Option String) :
    Prop where
  operations : ∀ kind, r.operations kind = objectFields ds (root? kind)
  objects : (r.ofCategory .outputObject).map (·.definition) =
    ds.filter fun d => d.category = .outputObject ∧
      root? .query ≠ some d.name ∧ root? .mutation ≠ some d.name

theorem objectFields_none : objectFields ds none = [] := by
  have h : ds.find? (isObject none) = none := List.find?_eq_none.mpr fun d _ => by simp [isObject]
  rw [objectFields, h]
  rfl

theorem objectFields_eq_nil {name : String} (h : ∀ d ∈ ds, isObject (some name) d = false) :
    objectFields ds (some name) = [] := by
  rw [objectFields, List.find?_eq_none.mpr fun d hd => by simp [h d hd]]
  rfl

theorem rootKind?_eq_some_iff :
    rootKind? roots d = some kind ↔ isObject (roots.root? kind) d = true := by
  unfold rootKind? isObject Schema.Definition.category
  cases d.shape <;> cases kind <;> simp [Schema.Shape.category, Roots.root?]
  all_goals grind

theorem rootKind?_eq_none_iff (h : d.category = .outputObject) : rootKind? roots d = none ↔
    roots.root? .query ≠ some d.name ∧ roots.root? .mutation ≠ some d.name := by
  have hkind : ∀ kind, rootKind? roots d = some kind ↔ roots.root? kind = some d.name := by
    intro kind
    rw [rootKind?_eq_some_iff, isObject, decide_eq_true_eq, and_iff_right h]
  rw [Ne, Ne, ← hkind, ← hkind]
  rcases rootKind? roots d with _ | kind
  · simp
  · cases kind <;> simp

theorem rootFields_eq_objectFields {draft : Draft}
    (h : ds.foldlM (Draft.add roots) ⟨empty home, [], []⟩ = .ok draft) (kind : OperationKind) :
    rootFields roots kind ds = objectFields ds (roots.root? kind) := by
  have hroot : ∀ d, decide (rootKind? roots d = some kind) = isObject (roots.root? kind) d :=
    fun d => by rw [Bool.eq_iff_iff, decide_eq_true_eq, rootKind?_eq_some_iff]
  rw [rootFields, objectFields, funext hroot]
  cases hfind : ds.find? (isObject (roots.root? kind)) with
  | none => rw [List.filter_eq_nil_iff.mpr (List.find?_eq_none.mp hfind)]; rfl
  | some d =>
      obtain ⟨hd, before, after, rfl, hbefore⟩ := List.find?_eq_some_iff_append.mp hfind
      -- a second root object of the kind would have the name of the first
      have hafter : ∀ e ∈ after, ¬ isObject (roots.root? kind) e = true := by
        intro e he hroot
        obtain ⟨mid, rest, rfl⟩ := List.append_of_mem he
        rw [← List.cons_append, ← List.append_assoc] at h
        refine (Draft.canFollow_of_foldlM h).1 (List.mem_map.mpr ⟨d, ?_, ?_⟩)
        · rw [rootObjects, List.mem_filter, rootKind?_eq_some_iff.mpr hd]
          exact ⟨by simp, rfl⟩
        · exact eq_of_rootKind? (rootKind?_eq_some_iff.mpr hd) (rootKind?_eq_some_iff.mpr hroot)
      rw [List.filter_append, List.filter_cons_of_pos hd,
        List.filter_eq_nil_iff.mpr fun e he => by simpa using hbefore e he,
        List.filter_eq_nil_iff.mpr hafter]
      simp

/-- An object type that is no root has no name of a built-in scalar. -/
theorem isType_of_object {draft : Draft}
    (h : ds.foldlM (Draft.add roots) ⟨empty home, [], []⟩ = .ok draft) (hd : d ∈ ds)
    (hobject : d.category = .outputObject) : isType roots d = (rootKind? roots d).isNone := by
  cases hkind : rootKind? roots d with
  | some kind => rw [isType, hkind]; rfl
  | none =>
      obtain ⟨before, after, rfl⟩ := List.append_of_mem hd
      have hfollow := (Draft.canFollow_of_foldlM h).2
      rw [hkind, if_neg (by simp)] at hfollow
      have hname : Primitive.ofName? d.name = none := by
        by_contra hbuiltin
        rw [if_pos (Option.isSome_iff_ne_none.mpr hbuiltin)] at hfollow
        rw [Schema.Definition.category, hfollow] at hobject
        cases hobject
      rw [isType, hkind, hname]
      rfl

theorem hasRoots_of_build {document : Document} {substitutions : Substitutions} {r : Registry}
    {warnings : List Warning} (h : build document home substitutions = .ok (r, warnings)) :
    HasRoots r document.definitions document.roots.root? := by
  obtain ⟨⟨draft, hdraft⟩, _⟩ := build_ok.mp ⟨r, warnings, h⟩
  rw [eq_declared_of_build h]
  refine ⟨fun kind => (operations_declared ..).trans (rootFields_eq_objectFields hdraft kind), ?_⟩
  rw [ofCategory, declared, List.filter_map, List.map_map, List.filter_filter]
  have hmap : ((·.definition) ∘ registered home substitutions) = id := rfl
  rw [hmap, List.map_id]
  refine List.filter_congr fun d hd => ?_
  simp only [Function.comp, RegisteredType.category, registered, Bool.decide_and]
  by_cases hobject : d.category = .outputObject
  · rw [isType_of_object hdraft hd hobject]
    simp only [hobject, decide_true, Bool.true_and]
    rw [Bool.eq_iff_iff, Option.isNone_iff_eq_none, rootKind?_eq_none_iff hobject]
    simp
  · simp [hobject]

end

/-! ## Declared roots -/

section

variable {document : Document} {declared? : OperationKind → Option String} {r : Registry}

/-- What the root types that a document declares have to be like in order to be those that stand. -/
structure DeclaresRoots (document : Document) (declared? : OperationKind → Option String) : Prop where
  /-- An object type whose name stands for a root is declared as one. -/
  declared : ∀ kind, ∀ d ∈ document.definitions,
    isObject (some (document.roots.name kind)) d = true → ∃ kind', declared? kind' = some d.name
  /-- If one name stands for both roots, no object type with fields is declared for mutations by
  it. -/
  apart : document.roots.mutation = document.roots.query →
    declared? .mutation = some document.roots.mutation →
      objectFields document.definitions (some document.roots.mutation) = []

theorem exists_kind {p : OperationKind → Prop} : (∃ kind, p kind) ↔ p .query ∨ p .mutation :=
  ⟨fun ⟨kind, h⟩ => by cases kind <;> [exact .inl h; exact .inr h],
    fun h => h.elim (⟨.query, ·⟩) (⟨.mutation, ·⟩)⟩

theorem root?_cases (roots : Roots) (kind : OperationKind) :
    roots.root? kind = some (roots.name kind) ∨
      kind = .mutation ∧ roots.mutation = roots.query ∧ roots.root? kind = none := by
  cases kind with
  | query => exact .inl rfl
  | mutation =>
      by_cases h : roots.mutation = roots.query
      · exact .inr ⟨rfl, h, if_pos h⟩
      · exact .inl (if_neg h)

theorem exists_root?_iff {roots : Roots} {s : String} :
    (∃ kind, roots.root? kind = some s) ↔ ∃ kind, roots.name kind = s := by
  rw [exists_kind, exists_kind]
  simp only [Roots.root?, Roots.name, Option.some.injEq]
  by_cases h : roots.mutation = roots.query <;> simp [h]

/-- Root types that leave the same object types over are the same object types. -/
theorem HasRoots.exists_root?_iff {ds : List Definition} {root? root?' : OperationKind → Option String}
    (h : HasRoots r ds root?) (h' : HasRoots r ds root?') {d : Definition} (hd : d ∈ ds)
    (hobject : d.category = .outputObject) :
    (∃ kind, root? kind = some d.name) ↔ ∃ kind, root?' kind = some d.name := by
  have hmem := congrArg (d ∈ ·) (h.objects.symm.trans h'.objects)
  simp only [List.mem_filter, hd, hobject, true_and, decide_eq_true_eq, ne_eq, ← not_or,
    eq_iff_iff] at hmem
  rw [exists_kind, exists_kind]
  exact not_iff_not.mp hmem

section

variable (hdeclared : ∀ kind,
  declared? kind = some (document.roots.name kind) ∨ declared? kind = none)

include hdeclared

theorem DeclaresRoots.exists_root?_iff (h : DeclaresRoots document declared?) {d : Definition}
    (hd : d ∈ document.definitions) (hobject : d.category = .outputObject) :
    (∃ kind, document.roots.root? kind = some d.name) ↔ ∃ kind, declared? kind = some d.name := by
  rw [Registry.exists_root?_iff]
  constructor
  · rintro ⟨kind, hkind⟩
    exact h.declared kind d hd (decide_eq_true ⟨hobject, congrArg some hkind⟩)
  · rintro ⟨kind, hkind⟩
    rcases hdeclared kind with hname | hnone
    · exact ⟨kind, Option.some.inj (hname.symm.trans hkind)⟩
    · cases hnone.symm.trans hkind

/-- The operations of a kind are the same fields by either name. -/
theorem DeclaresRoots.objectFields_eq (h : DeclaresRoots document declared?) (kind : OperationKind) :
    objectFields document.definitions (document.roots.root? kind) =
      objectFields document.definitions (declared? kind) := by
  rcases hdeclared kind with hname | hnone
  · rcases root?_cases document.roots kind with hroot | ⟨rfl, hboth, hroot⟩
    · rw [hroot, hname]
    · rw [hroot, objectFields_none, hname]
      exact (h.apart hboth hname).symm
  · rw [hnone, objectFields_none]
    rcases root?_cases document.roots kind with hroot | ⟨_, _, hroot⟩
    · rw [hroot]
      by_cases hex : ∃ d ∈ document.definitions,
          isObject (some (document.roots.name kind)) d = true
      · -- what stands for this kind is declared for the other one
        obtain ⟨d, hd, hobject⟩ := hex
        obtain ⟨kind', hkind'⟩ := h.declared kind d hd hobject
        have hname : some (document.roots.name kind) = some d.name := (of_decide_eq_true hobject).2
        have hname' := (hdeclared kind').resolve_right (by rw [hkind']; exact Option.some_ne_none _)
        rw [← hname] at hkind'
        have hsame := Option.some.inj (hname'.symm.trans hkind')
        cases kind <;> cases kind'
        · cases hnone.symm.trans hkind'
        · exact hsame ▸ h.apart hsame hname'
        · rw [Roots.root?, if_pos (show document.roots.mutation = document.roots.query from hsame.symm)] at hroot
          cases hroot
        · cases hnone.symm.trans hkind'
      · exact objectFields_eq_nil fun d hd => by simpa using fun hobject => hex ⟨d, hd, hobject⟩
    · rw [hroot, objectFields_none]

/-- Where nothing but what stands is declared, the declared roots are the root types exactly if
whatever stands is declared, and for operations of one kind. -/
theorem hasRoots_iff_declaresRoots (h : HasRoots r document.definitions document.roots.root?) :
    HasRoots r document.definitions declared? ↔ DeclaresRoots document declared? := by
  constructor
  · intro hr
    refine ⟨fun kind d hd hobject => ?_, fun hboth hmutation => ?_⟩
    · obtain ⟨hcategory, hname⟩ := of_decide_eq_true hobject
      exact (h.exists_root?_iff hr hd hcategory).mp
        (exists_root?_iff.mpr ⟨kind, Option.some.inj hname⟩)
    · have hnil := h.operations .mutation
      rw [Roots.root?, if_pos hboth, objectFields_none, hr.operations, hmutation] at hnil
      exact hnil
  · intro hall
    refine ⟨fun kind => (h.operations kind).trans (hall.objectFields_eq hdeclared kind), ?_⟩
    rw [h.objects]
    refine List.filter_congr fun d hd => ?_
    by_cases hcategory : d.category = .outputObject
    · simp only [hcategory, true_and, ne_eq, ← not_or]
      rw [decide_eq_decide, not_iff_not, ← exists_kind (p := fun kind => _ = _),
        hall.exists_root?_iff hdeclared hd hcategory, exists_kind]
    · simp [hcategory]

end

theorem declaredRoot?_cases (entries : List Schema.Grammar.Entry) (kind : OperationKind) :
    Schema.declaredRoot? entries kind = some ((Document.ofEntries entries).1.roots.name kind) ∨
      Schema.declaredRoot? entries kind = none := by
  rw [Schema.name_ofEntries, Schema.declaredRoot?]
  split
  · cases Schema.namedRoot? entries kind with
    | none => exact .inr rfl
    | some name => exact .inl rfl
  · rename_i h
    rw [Schema.namedRoot?_eq_none (Bool.eq_false_iff.mpr h)]
    exact .inl rfl

end

/-! ## Texts -/

/-- The root types of a text: each default stands unless a schema block replaces it, a type that
stands for both holds queries, and every other object type is an output object. They are the types
that the text declares exactly if whatever stands is declared, and for operations of one kind. -/
theorem hasRoots_of_registryOfText {home : Namespace} {substitutions : Substitutions}
    {text : String} {r : Registry} {warnings : List Warning}
    (h : registryOfText home substitutions text = .ok (r, warnings)) :
    ∃ entries rest document ignored,
      Schema.Grammar.entries.run (Schema.Lexeme.ofText text) = .ok (entries, rest) ∧
      Document.ofEntries entries = (document, ignored) ∧
      (∀ kind, document.roots.name kind =
        (Schema.namedRoot? entries kind).getD (Schema.defaultRoot kind)) ∧
      HasRoots r document.definitions document.roots.root? ∧
      (HasRoots r document.definitions (Schema.declaredRoot? entries) ↔
        DeclaresRoots document (Schema.declaredRoot? entries)) := by
  obtain ⟨document, ignored, found, hparse, hbuild⟩ := registryOfText_ok h
  obtain ⟨⟨entries, rest⟩, hentries, hdocument⟩ := Outcome.bind_ok.mp hparse
  have hdocument : Document.ofEntries entries = (document, ignored) := Except.ok.inj hdocument
  obtain rfl : (Document.ofEntries entries).1 = document := congrArg Prod.fst hdocument
  have hroots := hasRoots_of_build hbuild
  exact ⟨entries, rest, _, ignored, hentries, hdocument, Schema.name_ofEntries entries, hroots,
    hasRoots_iff_declaresRoots (declaredRoot?_cases entries) hroots⟩

/-- Both roots are named in front of an ordinary type called `Query`, which they return. -/
def renamedRoots : String := "schema \x7b query: Ask mutation: Change \x7d
  type Query \x7b text: String \x7d type Change \x7b run(text: String): Query \x7d
  type Ask \x7b recent: Query \x7d"

def renamedRegistry : { out // registryOfText .default [] renamedRoots = .ok out } :=
  Outcome.get _ (by decide +kernel)

theorem hasRoots_of_registryOfText_renamedRoots :
    ∃ r warnings entries rest document ignored,
      registryOfText .default [] renamedRoots = .ok (r, warnings) ∧
      Schema.Grammar.entries.run (Schema.Lexeme.ofText renamedRoots) = .ok (entries, rest) ∧
      Document.ofEntries entries = (document, ignored) ∧
      Schema.declaredRoot? entries .query = some "Ask" ∧
      Schema.declaredRoot? entries .mutation = some "Change" ∧
      HasRoots r document.definitions (Schema.declaredRoot? entries) := by
  obtain ⟨⟨r, warnings⟩, hr⟩ := renamedRegistry
  obtain ⟨out, hout, htest⟩ : ∃ out,
      Schema.Grammar.entries.run (Schema.Lexeme.ofText renamedRoots) = .ok out ∧
        decide (Schema.declaredRoot? out.1 .query = some "Ask" ∧
          Schema.declaredRoot? out.1 .mutation = some "Change") = true :=
    Outcome.any_eq_true.mp (by decide +kernel)
  obtain ⟨hquery, hmutation⟩ := of_decide_eq_true htest
  obtain ⟨entries, rest, document, ignored, hentries, hdocument, _, _, hiff⟩ :=
    hasRoots_of_registryOfText hr
  cases hout.symm.trans hentries
  have hcases := declaredRoot?_cases entries
  rw [hdocument] at hcases
  refine ⟨r, warnings, entries, rest, document, ignored, hr, hentries, hdocument, hquery, hmutation,
    hiff.mpr ⟨fun kind d _ hobject => ⟨kind, ?_⟩, fun hboth _ => ?_⟩⟩
  · have hname : some (document.roots.name kind) = some d.name := (of_decide_eq_true hobject).2
    rw [← hname]
    exact (hcases kind).resolve_right (by cases kind <;> simp [hquery, hmutation])
  · have hask := (hcases .query).resolve_right (by simp [hquery])
    have hchange := (hcases .mutation).resolve_right (by simp [hmutation])
    rw [Roots.name, ← hboth, ← Roots.name, ← hchange, hquery, hmutation] at hask
    exact absurd hask (by decide)

/-- Only the root for queries is renamed, in front of a type called `Mutation`. -/
def halfRenamedRoots : String :=
  "schema \x7b query: Q \x7d type Q \x7b a: Int \x7d type Mutation \x7b b: Int \x7d"

/-- A schema block that names no root for mutations leaves `Mutation` one. -/
theorem exists_not_hasRoots : ∃ r warnings entries rest document ignored,
    registryOfText .default [] halfRenamedRoots = .ok (r, warnings) ∧
    Schema.Grammar.entries.run (Schema.Lexeme.ofText halfRenamedRoots) = .ok (entries, rest) ∧
    Document.ofEntries entries = (document, ignored) ∧
    ¬ HasRoots r document.definitions (Schema.declaredRoot? entries) := by
  obtain ⟨⟨r, warnings⟩, hr, hmutations⟩ : ∃ out,
      registryOfText .default [] halfRenamedRoots = .ok out ∧
        decide (out.1.mutations.map (·.name) = ["b"]) = true :=
    Outcome.any_eq_true.mp (by decide +kernel)
  obtain ⟨⟨entries, rest⟩, hentries, hnone⟩ : ∃ out,
      Schema.Grammar.entries.run (Schema.Lexeme.ofText halfRenamedRoots) = .ok out ∧
        decide (Schema.declaredRoot? out.1 .mutation = none) = true :=
    Outcome.any_eq_true.mp (by decide +kernel)
  refine ⟨r, warnings, entries, rest, _, _, hr, hentries, rfl, fun h => ?_⟩
  have hfields : r.mutations = [] := by
    have hmutation := h.operations .mutation
    rw [of_decide_eq_true hnone, objectFields_none] at hmutation
    exact hmutation
  have hnames : r.mutations.map (·.name) = ["b"] := of_decide_eq_true hmutations
  rw [hfields] at hnames
  cases hnames

end Registry

end Graphwright
