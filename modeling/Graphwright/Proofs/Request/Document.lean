import Graphwright.Proofs.Request.InputValue
import Graphwright.Request.Basic

/-!
# Documents are read back

A selection is read back up to its closing brace, and a document is its operation kind in front of a
selection of one field. So two requests whose documents are the same text are the same request.
-/
namespace Graphwright

open Text (Stops ReadsBack)
open Schema (IsName)

/-! ## Selections -/

namespace Selection

open Request

mutual
def WellNamedField : SelectedField → Prop
  | .mk arguments none => Arguments.WellNamed arguments
  | .mk arguments (some nested) => Arguments.WellNamed arguments ∧ WellNamed nested

/-- All names, at every depth, are names of the query language, and there are no doubles. -/
def WellNamed : List (String × SelectedField) → Prop
  | [] => True
  | (name, field) :: fields => IsName name ∧ WellNamedField field ∧ WellNamed fields
end

theorem wellNamed_iff {fields : Selection} :
    WellNamed fields ↔ ∀ f ∈ fields, IsName f.1 ∧ WellNamedField f.2 := by
  induction fields with
  | nil => simp [WellNamed]
  | cons f fields ih =>
      obtain ⟨name, field⟩ := f
      simp [WellNamed, ih, and_assoc]

def chars (selection : Selection) : List Char := selection.text.toList

/-- What is written behind the arguments of a field. -/
def nestedChars : Option Selection → List Char
  | none => []
  | some nested => ' ' :: chars nested

/-- A field with the blank in front of it. -/
def fieldChars (f : String × SelectedField) : List Char := ' ' :: (fieldText f.1 f.2).toList

theorem fieldChars_mk (name : String) (arguments : Arguments) (nested : Option Selection) :
    fieldChars (name, .mk arguments nested)
      = ' ' :: (name.toList ++ (arguments.chars ++ nestedChars nested)) := by
  cases nested with
  | none => simp [fieldChars, fieldText, nestedChars, Arguments.chars, String.toList_append]
  | some nested =>
      simp [fieldChars, fieldText, nestedChars, chars, text, Arguments.chars, String.toList_append]

theorem toList_join_fieldTexts (fields : Selection) :
    (String.join (fieldTexts fields)).toList = fields.flatMap fieldChars := by
  induction fields with
  | nil => rfl
  | cons f fields ih =>
      obtain ⟨name, field⟩ := f
      simp [fieldTexts, fieldChars, String.toList_append, ih]

theorem chars_eq (selection : Selection) :
    chars selection = '\x7b' :: (selection.flatMap fieldChars ++ [' ', '\x7d']) := by
  simp only [chars, text, String.toList_append, toList_join_fieldTexts]
  rfl

/-- What follows a field: a blank, and then something other than a nested selection. -/
def Follows (s : List Char) : Prop := ∃ c u, s = ' ' :: c :: u ∧ c ≠ '\x7b'

theorem nestedChars_append_stops (nested : Option Selection) {s : List Char} (hs : Follows s) :
    Stops (· = '(') (nestedChars nested ++ s) ∧ Stops isWordChar (nestedChars nested ++ s) := by
  obtain ⟨c, u, rfl, _⟩ := hs
  cases nested <;> exact ⟨Stops.cons (by decide) _, Stops.cons (by decide) _⟩

theorem arguments_append_stops {arguments : Arguments} {s : List Char} (hs : Stops isWordChar s) :
    Stops isWordChar (arguments.chars ++ s) := by
  cases arguments with
  | nil => exact hs
  | cons f fs =>
      rw [Arguments.chars_cons]
      exact Stops.cons (by decide) _

theorem wellNamedField_mk {arguments : Arguments} {nested : Option Selection} :
    WellNamedField (.mk arguments nested)
      ↔ arguments.WellNamed ∧ ∀ s, nested = some s → WellNamed s := by
  cases nested with
  | none => simp [WellNamedField]
  | some nested => simp [WellNamedField]

theorem readsBack_nested {nested : Option Selection}
    (hread : ∀ s, nested = some s → ReadsBack chars WellNamed (fun _ => True) s) :
    ReadsBack nestedChars (fun n => ∀ s, n = some s → WellNamed s) Follows nested := by
  intro other s t hother hs ht e
  cases nested with
  | none =>
      cases other with
      | none => exact ⟨rfl, e⟩
      | some o =>
          obtain ⟨c, u, rfl, hc⟩ := hs
          simp only [nestedChars, chars_eq, List.nil_append, List.cons_append, List.cons.injEq,
            true_and] at e
          exact absurd e.1 hc
  | some n =>
      cases other with
      | none =>
          obtain ⟨c, u, rfl, hc⟩ := ht
          simp only [nestedChars, chars_eq, List.nil_append, List.cons_append, List.cons.injEq,
            true_and] at e
          exact absurd e.1.symm hc
      | some o =>
          simp only [nestedChars, List.cons_append, List.cons.injEq, true_and] at e
          obtain ⟨rfl, hst⟩ := hread n rfl o s t (hother o rfl) trivial trivial e
          exact ⟨rfl, hst⟩

/-- A field is read back if its nested selection is. -/
theorem readsBack_field {name : String} {arguments : Arguments} {nested : Option Selection}
    (hn : IsName name) (ha : arguments.WellNamed)
    (hread : ∀ s, nested = some s → ReadsBack chars WellNamed (fun _ => True) s) :
    ReadsBack fieldChars (fun f => IsName f.1 ∧ WellNamedField f.2) Follows
      (name, .mk arguments nested) := by
  rintro ⟨name', ⟨arguments', nested'⟩⟩ s t ⟨hn', hf'⟩ hs ht e
  obtain ⟨ha', hnested'⟩ := wellNamedField_mk.mp hf'
  simp only [fieldChars_mk, List.cons_append, List.append_assoc, List.cons.injEq, true_and] at e
  have hs' := nestedChars_append_stops nested hs
  have ht' := nestedChars_append_stops nested' ht
  obtain ⟨rfl, hrest⟩ := readsBack_name hn name' _ _ hn' (arguments_append_stops hs'.2)
    (arguments_append_stops ht'.2) e
  obtain ⟨rfl, hrest'⟩ := Arguments.readsBack ha arguments' _ _ ha' hs'.1 ht'.1 hrest
  obtain ⟨rfl, hst⟩ := readsBack_nested hread nested' s t hnested' hs ht hrest'
  exact ⟨rfl, hst⟩

/-- A field starts with its name. -/
theorem fieldChars_eq_cons {f : String × SelectedField} (h : IsName f.1) :
    ∃ c cs, fieldChars f = ' ' :: c :: cs ∧ isWordChar c = true := by
  obtain ⟨name, ⟨arguments, nested⟩⟩ := f
  obtain ⟨c, cs, e, hc, _⟩ := h
  refine ⟨c, cs ++ (arguments.chars ++ nestedChars nested), ?_, isWordChar_of_isNameStart hc⟩
  rw [fieldChars_mk, e]
  rfl

/-- A selection is read back up to its closing brace if its fields are. -/
theorem readsBack_of_fields {fields : Selection} (h : WellNamed fields)
    (hread : ∀ f ∈ fields,
      ReadsBack fieldChars (fun f => IsName f.1 ∧ WellNamedField f.2) Follows f) :
    ReadsBack chars WellNamed (fun _ => True) fields := by
  intro others s t hothers _ _ e
  rw [chars_eq, chars_eq, List.cons_append, List.cons_append, List.cons.injEq] at e
  have hclose : ∀ (f : String × SelectedField) (u v : List Char), IsName f.1 ∧ WellNamedField f.2 →
      fieldChars f ++ u ≠ [' ', '\x7d'] ++ v := by
    intro f u v hf he
    obtain ⟨c, cs, hc, hw⟩ := fieldChars_eq_cons hf.1
    rw [hc] at he
    cases he
    exact absurd hw (by decide)
  have hfollow : ∀ (f : String × SelectedField) (u : List Char), IsName f.1 ∧ WellNamedField f.2 →
      Follows (fieldChars f ++ u) := by
    intro f u hf
    obtain ⟨c, cs, hc, hw⟩ := fieldChars_eq_cons hf.1
    refine ⟨c, cs ++ u, by rw [hc]; rfl, ?_⟩
    rintro rfl
    exact absurd hw (by decide)
  exact Text.readsBack_flatMap hclose hfollow (fun u => ⟨'\x7d', u, rfl, by decide⟩) hread
    (wellNamed_iff.mp h) others s t (wellNamed_iff.mp hothers) trivial trivial e.2

mutual
theorem readsBack_selected : (name : String) → (field : SelectedField) → IsName name →
    WellNamedField field →
    ReadsBack fieldChars (fun f => IsName f.1 ∧ WellNamedField f.2) Follows (name, field)
  | _, .mk _ none, hn, hf => readsBack_field hn hf (fun _ e => nomatch e)
  | _, .mk _ (some nested), hn, hf =>
      readsBack_field hn hf.1 fun _ e => Option.some.inj e ▸
        readsBack_of_fields hf.2 (readsBack_all nested hf.2)

theorem readsBack_all : (fields : List (String × SelectedField)) → WellNamed fields →
    ∀ f ∈ fields, ReadsBack fieldChars (fun f => IsName f.1 ∧ WellNamedField f.2) Follows f
  | [], _ => by simp
  | (name, field) :: fields, h => by
      intro g hg
      rcases List.mem_cons.mp hg with hg | hg
      · exact hg ▸ readsBack_selected name field h.1 h.2.1
      · exact readsBack_all fields h.2.2 g hg
end

end Selection

/-! ## Requests -/

namespace Request

def WellNamed (request : Request) : Prop :=
  IsName request.action ∧ request.arguments.WellNamed ∧
    ∀ s, request.selection = some s → Selection.WellNamed s

/-- The root field as the only field of a selection. -/
def rootSelection (request : Request) : Selection :=
  [(request.action, .mk request.arguments request.selection)]

theorem document_eq (request : Request) :
    request.document.toList = request.kind.text.toList ++ ' ' :: request.rootSelection.chars := by
  obtain ⟨kind, action, arguments, selection⟩ := request
  rw [Selection.chars_eq, rootSelection, List.flatMap_singleton, Selection.fieldChars_mk]
  cases selection with
  | none =>
      simp [document, rootText, Selection.nestedChars, Arguments.chars, String.toList_append]
  | some selection =>
      simp [document, rootText, Selection.nestedChars, Selection.chars, Arguments.chars,
        String.toList_append]

theorem wellNamed_rootSelection {request : Request} (h : request.WellNamed) :
    Selection.WellNamed request.rootSelection :=
  ⟨h.1, Selection.wellNamedField_mk.mpr h.2, trivial⟩

theorem kind_eq_of_append_eq {j k : OperationKind} {s t : List Char}
    (h : j.text.toList ++ s = k.text.toList ++ t) : j = k := by
  cases j <;> cases k <;> first | rfl | cases h

/-- A document determines its request: the kind, the root field, the arguments in their order and
the selection. -/
theorem eq_of_document_eq {a b : Request} (ha : a.WellNamed) (hb : b.WellNamed)
    (h : a.document = b.document) : a = b := by
  have e : a.kind.text.toList ++ ' ' :: a.rootSelection.chars
      = b.kind.text.toList ++ ' ' :: b.rootSelection.chars := by
    rw [← document_eq, ← document_eq, h]
  have hk : a.kind = b.kind := kind_eq_of_append_eq e
  rw [hk] at e
  have hchars := (List.cons.inj (List.append_cancel_left e)).2
  have hra := wellNamed_rootSelection ha
  obtain ⟨hroot, _⟩ := Selection.readsBack_of_fields hra (Selection.readsBack_all _ hra)
    b.rootSelection [] [] (wellNamed_rootSelection hb) trivial trivial (by simpa using hchars)
  obtain ⟨kind, action, arguments, selection⟩ := a
  obtain ⟨kind', action', arguments', selection'⟩ := b
  simp only [rootSelection, List.cons.injEq, Prod.mk.injEq, SelectedField.mk.injEq,
    and_true] at hroot
  obtain ⟨rfl, rfl, rfl⟩ := hroot
  cases hk
  rfl

/-- A request whose string argument tries to close the argument list and to open a selection. -/
def spoofing : Request where
  kind := .query
  action := "user"
  arguments := [("id", .string "\") \x7b id \x7d #\\\n"),
    ("roles", .list [.enum "ADMIN", .int (-1)])]
  selection := some [("id", .mk [] none), ("avatar", .mk [("size", .object [("w", .int 16)])] none),
    ("boss", .mk [] (some [("name", .mk [] none)]))]

theorem spoofing_wellNamed : spoofing.WellNamed := by
  refine ⟨by decide, ?_, ?_⟩
  · simp [spoofing, Arguments.WellNamed, InputValue.WellNamedField, InputValue.WellNamed,
      InputValue.WellNamedList]
    decide
  · simp [spoofing, Selection.WellNamed, Selection.WellNamedField, Arguments.WellNamed,
      InputValue.WellNamedField, InputValue.WellNamed, InputValue.WellNamedFields]
    decide

/-- Selecting a field once more gives the document, and so the request, that was there before. -/
def spoofingAgain : Request :=
  { spoofing with selection := spoofing.selection.map (Selection.select · "id" [] none) }

theorem eq_of_document_eq_spoofing :
    spoofingAgain.WellNamed ∧ spoofing.WellNamed ∧ spoofingAgain.document = spoofing.document ∧
      spoofingAgain = spoofing :=
  ⟨spoofing_wellNamed, spoofing_wellNamed, rfl,
    eq_of_document_eq spoofing_wellNamed spoofing_wellNamed rfl⟩

end Request

end Graphwright
