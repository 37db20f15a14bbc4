import Graphwright.Proofs.Request.Document

/-!
# Selection sets of a document

The braces behind the fields of a document enclose selections: what is selected of the root field,
and what is nested in that at any depth. A request with nothing selected of its root field is
refused, but a nested selection is not looked at. So an accepted request has an empty selection set
exactly if one nested in it is empty, and it has none if its selection has been put together from
nested ones that select something.
-/
namespace Graphwright

/-! ## Nested selections -/

namespace Selection

mutual
/-- What is selected of a field, with all that is nested in it. -/
def setsOf : SelectedField → List Selection
  | .mk _ none => []
  | .mk _ (some nested) => nested :: nestedSets nested

/-- The selections nested in one, at every depth. -/
def nestedSets : List (String × SelectedField) → List Selection
  | [] => []
  | (_, field) :: fields => setsOf field ++ nestedSets fields
end

theorem nestedSets_eq_flatMap (fields : Selection) :
    nestedSets fields = fields.flatMap fun f => setsOf f.2 := by
  induction fields with
  | nil => rfl
  | cons f fields ih =>
      obtain ⟨name, field⟩ := f
      rw [nestedSets, ih, List.flatMap_cons]

theorem mem_nestedSets {s fields : Selection} :
    s ∈ nestedSets fields ↔ ∃ f ∈ fields, s ∈ setsOf f.2 := by
  rw [nestedSets_eq_flatMap, List.mem_flatMap]

theorem mem_setsOf {s : Selection} {arguments : Arguments} {nested : Option Selection} :
    s ∈ setsOf (.mk arguments nested) ↔ ∃ n, nested = some n ∧ (s = n ∨ s ∈ nestedSets n) := by
  cases nested with
  | none => simp [setsOf]
  | some n => simp [setsOf]

/-! ## Braces -/

mutual
theorem chars_infix_of_mem_setsOf {s : Selection} (name : String) :
    (field : SelectedField) → s ∈ setsOf field → chars s <:+: fieldChars (name, field)
  | .mk _ none, h => by simp [setsOf] at h
  | .mk arguments (some nested), h => by
      have hnested : chars nested <:+: fieldChars (name, .mk arguments (some nested)) := by
        rw [fieldChars_mk, nestedChars]
        exact ⟨' ' :: (name.toList ++ arguments.chars ++ [' ']), [], by simp⟩
      rw [setsOf, List.mem_cons] at h
      rcases h with rfl | h
      · exact hnested
      · have hfields := chars_infix_of_mem_nestedSets nested h
        rw [chars_eq] at hnested
        exact (hfields.trans ⟨['\x7b'], [' ', '\x7d'], by simp⟩).trans hnested

/-- What is nested in a selection is written between its braces. -/
theorem chars_infix_of_mem_nestedSets {s : Selection} :
    (fields : List (String × SelectedField)) → s ∈ nestedSets fields →
      chars s <:+: fields.flatMap fieldChars
  | [], h => by simp [nestedSets] at h
  | (name, field) :: fields, h => by
      rw [List.flatMap_cons]
      rw [nestedSets, List.mem_append] at h
      rcases h with h | h
      · exact (chars_infix_of_mem_setsOf name field h).trans (List.infix_append [] _ _)
      · exact (chars_infix_of_mem_nestedSets fields h).trans (List.suffix_append _ _).isInfix
end

/-! ## Selections put together -/

/-- A selection that calls of `select` put together, where each selection that a call nests selects
something and has been put together so itself. -/
inductive Assembled : Selection → Prop
  | nothing : Assembled []
  | leaf {s : Selection} (h : Assembled s) (name : String) (arguments : Arguments) :
      Assembled (s.select name arguments none)
  | nest {s n : Selection} (h : Assembled s) (name : String) (arguments : Arguments)
      (hn : Assembled n) (hne : n ≠ []) : Assembled (s.select name arguments (some n))

/-- A call of `select` nests nothing besides what it is given. -/
theorem mem_nestedSets_select {s t : Selection} {name : String} {arguments : Arguments}
    {nested : Option Selection} (h : t ∈ nestedSets (s.select name arguments nested)) :
    t ∈ nestedSets s ∨ ∃ n, nested = some n ∧ (t = n ∨ t ∈ nestedSets n) := by
  obtain ⟨f, hf, ht⟩ := mem_nestedSets.mp h
  rcases Entries.mem_put hf with rfl | hf
  · exact Or.inr (mem_setsOf.mp ht)
  · exact Or.inl (mem_nestedSets.mpr ⟨f, hf, ht⟩)

theorem Assembled.nil_not_mem {s : Selection} (h : Assembled s) : [] ∉ nestedSets s := by
  induction h with
  | nothing => simp [nestedSets]
  | leaf _ name arguments ih =>
      intro ht
      rcases mem_nestedSets_select ht with ht | ⟨n, hn, _⟩
      · exact ih ht
      · cases hn
  | nest _ name arguments _ hne ih ihn =>
      intro ht
      rcases mem_nestedSets_select ht with ht | ⟨n, hn, ht⟩
      · exact ih ht
      · cases hn
        exact ht.elim (fun e => hne e.symm) ihn

end Selection

/-! ## Requests -/

namespace Request

/-- The selections between the braces of a document. -/
def selectionSets (request : Request) : List Selection :=
  Selection.setsOf (.mk request.arguments request.selection)

theorem nestedSets_rootSelection (request : Request) :
    Selection.nestedSets request.rootSelection = request.selectionSets := by
  rw [rootSelection, Selection.nestedSets, Selection.nestedSets, List.append_nil, selectionSets]

theorem chars_infix_document {request : Request} {s : Selection}
    (h : s ∈ request.selectionSets) : s.text.toList <:+: request.document.toList := by
  rw [← nestedSets_rootSelection] at h
  have hroot := Selection.chars_infix_of_mem_nestedSets request.rootSelection h
  rw [document_eq, Selection.chars_eq]
  exact hroot.trans ⟨request.kind.text.toList ++ [' ', '\x7b'], [' ', '\x7d'], by simp⟩

section Accepted

variable {kind : OperationKind} {action : String} {arguments : Arguments}
  {selection : Option Selection} {request : Request}

theorem of_eq_ok (h : Request.of kind action arguments selection = .ok request) :
    selection ≠ some [] ∧ request = ⟨kind, action, arguments, selection⟩ := by
  unfold Request.of at h
  split at h
  · cases h
  · rename_i hne
    cases h
    exact ⟨hne, rfl⟩

theorem nil_mem_selectionSets_iff
    (h : Request.of kind action arguments selection = .ok request) :
    [] ∈ request.selectionSets ↔ ∃ s, selection = some s ∧ [] ∈ Selection.nestedSets s := by
  obtain ⟨hne, rfl⟩ := of_eq_ok h
  rw [selectionSets, Selection.mem_setsOf]
  constructor
  · rintro ⟨s, rfl, rfl | hs⟩
    · exact absurd rfl hne
    · exact ⟨s, rfl, hs⟩
  · rintro ⟨s, rfl, hs⟩
    exact ⟨s, rfl, Or.inr hs⟩

/-- The document of an accepted request has an empty pair of braces exactly if a selection nested in
what is selected of its root field is empty. None is if that has been put together from selections
that select something. -/
theorem selectionSets_of_ok (h : Request.of kind action arguments selection = .ok request) :
    (∀ s ∈ request.selectionSets, s.text.toList <:+: request.document.toList) ∧
      ([] ∈ request.selectionSets ↔ ∃ s, selection = some s ∧ [] ∈ Selection.nestedSets s) ∧
      ((∀ s, selection = some s → s.Assembled) → [] ∉ request.selectionSets) := by
  refine ⟨fun s hs => chars_infix_document hs, nil_mem_selectionSets_iff h, fun ha hnil => ?_⟩
  obtain ⟨s, hs, hmem⟩ := (nil_mem_selectionSets_iff h).mp hnil
  exact (ha s hs).nil_not_mem hmem

end Accepted

/-- The name of a user and that of the user's boss. -/
def bossNames : Selection :=
  Selection.select (Selection.select [] "name" [] none) "boss" []
    (some (Selection.select [] "name" [] none))

theorem selectionSets_of_ok_bossNames : ∃ request,
    Request.of .query "user" [] (some bossNames) = .ok request ∧
    request.document = "query \x7b user \x7b name boss \x7b name \x7d \x7d \x7d" ∧
    (∀ s ∈ request.selectionSets, s.text.toList <:+: request.document.toList) ∧
    [] ∉ request.selectionSets := by
  have h : Request.of .query "user" [] (some bossNames)
      = .ok ⟨.query, "user", [], some bossNames⟩ := rfl
  have hname : (Selection.select [] "name" [] none).Assembled := .leaf .nothing _ _
  have hnames : bossNames.Assembled :=
    .nest hname _ _ hname (by simp [Selection.select, Entries.put])
  obtain ⟨hwithin, _, hassembled⟩ := selectionSets_of_ok h
  exact ⟨_, h, rfl, hwithin, hassembled fun s hs => Option.some.inj hs ▸ hnames⟩

/-- A nested selection that selects nothing is accepted. -/
theorem exists_nil_mem_selectionSets : ∃ request,
    Request.of .query "user" [] (some (Selection.select [] "boss" [] (some []))) = .ok request ∧
    [] ∈ request.selectionSets ∧
    request.document = "query \x7b user \x7b boss \x7b \x7d \x7d \x7d" :=
  ⟨_, rfl, by simp [selectionSets, Selection.select, Entries.put, Selection.setsOf,
    Selection.nestedSets], rfl⟩

end Request

end Graphwright
