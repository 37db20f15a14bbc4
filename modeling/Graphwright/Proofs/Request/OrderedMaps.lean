import Graphwright.Proofs.Entries
import Graphwright.Proofs.Request.InputValue
import Graphwright.Request.Selection

/-!
# Arguments and selections as ordered maps

Arguments and selections are lists in which a name is looked for before anything is appended. So
however often names are repeated, each stands once in them, where it came first and with what was
given for it last, and each is written once.
-/
namespace Graphwright

open Entries (last? names Replaces)

namespace Arguments

/-- The arguments after values have been inserted into empty ones. -/
def insertAll (entries : List (String × InputValue)) : Arguments :=
  entries.foldl (fun arguments e => arguments.insert e.1 e.2) []

end Arguments

namespace Selection

/-- A call that selects a field: its name, its arguments and what is selected of it. -/
abbrev Call := String × Arguments × Option Selection

/-- What a call is to leave behind. -/
def Call.entry (call : Call) : String × SelectedField := (call.1, .mk call.2.1 call.2.2)

/-- The selection after calls to an empty one. -/
def selectAll (calls : List Call) : Selection :=
  calls.foldl (fun selection call => selection.select call.1 call.2.1 call.2.2) []

theorem selectAll_eq_collect (calls : List Call) :
    selectAll calls = Entries.collect (calls.map Call.entry) := by
  rw [selectAll, Entries.collect, List.foldl_map]
  rfl

/-- A field as it stands between the braces. -/
def piece (field : String × SelectedField) : String :=
  field.1 ++ field.2.arguments.text ++ match field.2.nested with
    | none => ""
    | some nested => " " ++ text nested

theorem fieldTexts_eq_map (selection : Selection) :
    fieldTexts selection = selection.map fun field => " " ++ piece field := by
  induction selection with
  | nil => rfl
  | cons field fields ih =>
      obtain ⟨name, arguments, nested⟩ := field
      rw [fieldTexts, ih, List.map_cons]
      cases nested with
      | none => simp [fieldText, piece, SelectedField.arguments, SelectedField.nested]
      | some nested =>
          have hbrace : " \x7b" = " " ++ "\x7b" := rfl
          simp only [fieldText, piece, text, SelectedField.arguments, SelectedField.nested, hbrace,
            String.append_assoc]

end Selection

/-- Arguments and selections hold each name once, in the order in which the names first came, with
what was given for it last and with nothing that was given before. They are written name by name. -/
theorem replaces_insertAll_selectAll (entries : List (String × InputValue))
    (calls : List Selection.Call) :
    (Replaces entries (Arguments.insertAll entries) ∧
      Arguments.ofList entries = Arguments.insertAll entries ∧
      ∃ pieces, List.Forall₂ (fun name piece => ∃ value, last? name entries = some value ∧
          piece = name ++ ": " ++ value.text) (names entries).eraseDups pieces ∧
        (Arguments.insertAll entries).text =
          (if entries = [] then "" else "(" ++ ", ".intercalate pieces ++ ")") ∧
        (InputValue.object (Arguments.insertAll entries)).text =
          "\x7b" ++ ", ".intercalate pieces ++ "\x7d") ∧
    Replaces (calls.map Selection.Call.entry) (Selection.selectAll calls) ∧
      ∃ pieces, List.Forall₂ (fun name piece => ∃ arguments nested,
          last? name (calls.map Selection.Call.entry) = some (.mk arguments nested) ∧
          piece = name ++ arguments.text ++ match nested with
            | none => ""
            | some nested => " " ++ Selection.text nested)
          (names (calls.map Selection.Call.entry)).eraseDups pieces ∧
        (Selection.selectAll calls).text =
          "\x7b" ++ String.join (pieces.map (" " ++ ·)) ++ " \x7d" := by
  have hinserted : Replaces entries (Arguments.insertAll entries) :=
    Entries.replaces_collect entries
  have hselected : Replaces (calls.map Selection.Call.entry) (Selection.selectAll calls) :=
    Selection.selectAll_eq_collect calls ▸ Entries.replaces_collect _
  refine ⟨⟨hinserted, rfl, _, hinserted.forall₂_map fun f => f.1 ++ ": " ++ f.2.text, ?_, ?_⟩,
    hselected, _, (hselected.forall₂_map Selection.piece).imp ?_, ?_⟩
  · have hempty : (Arguments.insertAll entries).isEmpty = true ↔ entries = [] := by
      rw [List.isEmpty_iff_length_eq_zero, hinserted.length]
      cases entries <;> simp [names]
    simp only [Arguments.text, hempty, InputValue.fieldTexts_eq_map]
  · simp only [InputValue.text, InputValue.fieldTexts_eq_map]
  · rintro name piece ⟨⟨arguments, nested⟩, hlast, rfl⟩
    exact ⟨arguments, nested, hlast, rfl⟩
  · rw [Selection.text, Selection.fieldTexts_eq_map, List.map_map]
    rfl

/-- The second size replaces the first one, where that stands. -/
example : (Selection.selectAll [("avatar", [("size", .int 16)], none), ("name", [], none),
    ("avatar", [("size", .int 64)], none)]).text = "\x7b avatar(size: 64) name \x7d" := by decide

end Graphwright
