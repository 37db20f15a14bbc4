import Graphwright.Proofs.Entries
import Graphwright.Proofs.Request.RawScalars

/-!
# Raw custom scalars sent back

A raw scalar keeps the JSON value that it was read from, and sends it as a value of a request, which
is written as JSON again. Main statement: of integers of 64 bits, those with sign come back as they
were and the greater ones as doubles; all else comes back as it was.
-/
namespace Graphwright

namespace Json

/-! ## Numbers replaced -/

section

variable (f : Number → Number)

mutual
def mapNumbers : Json → Json
  | null => null
  | bool b => bool b
  | .number n => .number (f n)
  | string s => string s
  | array es => array (mapElements es)
  | object ms => object (mapMembers ms)

def mapElements : List Json → List Json
  | [] => []
  | e :: es => mapNumbers e :: mapElements es

def mapMembers : List (String × Json) → List (String × Json)
  | [] => []
  | (k, v) :: ms => (k, mapNumbers v) :: mapMembers ms
end

end

section

variable {f : Number → Number} {bound fixed : Number → Prop}

mutual
/-- A value stays as it is exactly if each of its numbers does. -/
theorem mapNumbers_eq_self_iff (hfixed : ∀ n, bound n → (f n = n ↔ fixed n)) :
    (v : Json) → v.Within bound (fun _ => True) →
    (v.mapNumbers f = v ↔ v.Within fixed (fun _ => True))
  | null, _ => ⟨fun _ => trivial, fun _ => rfl⟩
  | bool _, _ => ⟨fun _ => trivial, fun _ => rfl⟩
  | .number n, h => by
      rw [mapNumbers, Json.number.injEq]
      exact hfixed n h
  | string _, _ => ⟨fun _ => trivial, fun _ => rfl⟩
  | array es, h => by
      rw [mapNumbers, Json.array.injEq]
      exact mapElements_eq_self_iff hfixed es h
  | object ms, h => by
      rw [mapNumbers, Json.object.injEq]
      exact mapMembers_eq_self_iff hfixed ms h

theorem mapElements_eq_self_iff (hfixed : ∀ n, bound n → (f n = n ↔ fixed n)) :
    (es : List Json) → WithinElements bound (fun _ => True) es →
    (mapElements f es = es ↔ WithinElements fixed (fun _ => True) es)
  | [], _ => ⟨fun _ => trivial, fun _ => rfl⟩
  | e :: es, h => by
      rw [mapElements, List.cons.injEq]
      exact and_congr (mapNumbers_eq_self_iff hfixed e h.1) (mapElements_eq_self_iff hfixed es h.2)

theorem mapMembers_eq_self_iff (hfixed : ∀ n, bound n → (f n = n ↔ fixed n)) :
    (ms : List (String × Json)) → WithinMembers bound (fun _ => True) ms →
    (mapMembers f ms = ms ↔ WithinMembers fixed (fun _ => True) ms)
  | [], _ => ⟨fun _ => trivial, fun _ => rfl⟩
  | (k, v) :: ms, h => by
      rw [mapMembers, List.cons.injEq, Prod.mk.injEq, and_assoc]
      exact and_congr (iff_of_true rfl trivial)
        (and_congr (mapNumbers_eq_self_iff hfixed v h.2.1) (mapMembers_eq_self_iff hfixed ms h.2.2))
end

end

/-! ## Numbers on their way -/

/-- An integer of 64 bits, with sign or without. -/
def Number.IsInteger64 : Number → Prop
  | .integer n => -Int.pow 2 63 ≤ n ∧ n < Int.pow 2 64
  | .float _ => False

instance Number.decidableIsInteger64 (n : Number) : Decidable n.IsInteger64 :=
  match n with
  | .integer _ => inferInstanceAs (Decidable (_ ∧ _))
  | .float _ => inferInstanceAs (Decidable False)

/-- The number that arrives for one that is sent. -/
def Number.sent : Number → Number
  | .integer n => if (Number.integer n).IsInt64 then .integer n else .float (.ofInt n)
  | .float x => .float x

theorem Number.sent_eq_self_iff {n : Number} (h : n.IsInteger64) : n.sent = n ↔ n.IsInt64 := by
  cases n with
  | integer k =>
      rw [sent]
      split
      · exact iff_of_true rfl ‹_›
      · exact iff_of_false (fun e => by cases e) ‹_›
  | float x => exact h.elim

end Json

namespace InputValue

open Json (Number)

theorem toJson_ofNumber (n : Number) : (ofNumber n).toJson = .number n.sent := by
  cases n with
  | integer k =>
      rw [Number.sent]
      by_cases h : (Number.integer k).IsInt64
      · rw [if_pos h]
        exact congrArg toJson (if_pos h)
      · rw [if_neg h]
        exact congrArg toJson (if_neg h)
  | float x => rfl

mutual
theorem toJson_ofJson : (v : Json) → (ofJson v).toJson = v.mapNumbers Number.sent
  | .null => rfl
  | .bool _ => rfl
  | .number n => toJson_ofNumber n
  | .string _ => rfl
  | .array es => congrArg Json.array (elementsToJson_ofElements es)
  | .object ms => congrArg Json.object (fieldsToJson_ofMembers ms)

theorem elementsToJson_ofElements : (es : List Json) →
    elementsToJson (ofElements es) = Json.mapElements Number.sent es
  | [] => rfl
  | e :: es => by
      rw [ofElements, elementsToJson, toJson_ofJson e, elementsToJson_ofElements es,
        Json.mapElements]

theorem fieldsToJson_ofMembers : (ms : List (String × Json)) →
    fieldsToJson (ofMembers ms) = Json.mapMembers Number.sent ms
  | [] => rfl
  | (k, v) :: ms => by
      rw [ofMembers, fieldsToJson, toJson_ofJson v, fieldsToJson_ofMembers ms, Json.mapMembers]
end

/-- The members of an object stand under distinct keys, so that none is lost where they are
collected as the fields of a value. -/
theorem ofList_ofMembers {ms : List (String × Json)} (h : (Entries.names ms).Nodup) :
    Arguments.ofList (ofMembers ms) = ofMembers ms := by
  apply Entries.collect_eq
  rw [Json.ofMembers_eq_map, Entries.names, List.map_map]
  exact h

end InputValue

namespace RawScalar

open Json (Number)

/-- Every JSON value is read as a raw scalar. Sent back it is the value in which the integers that
take an unsigned 64th bit have become doubles, so it is the value itself exactly if there are none
of them. -/
theorem sent_of_decode {name : String} {v : Json} (h : v.Within Number.IsInteger64 (fun _ => True)) :
    ∃ scalar : RawScalar name, CustomScalar.decode v = .ok scalar ∧
      scalar.toInput.toJson = v.mapNumbers Number.sent ∧
      (scalar.toInput.toJson = v ↔ v.Within Number.IsInt64 (fun _ => True)) := by
  refine ⟨⟨v⟩, rfl, InputValue.toJson_ofJson v, ?_⟩
  rw [toInput, InputValue.toJson_ofJson]
  exact Json.mapNumbers_eq_self_iff (fun _ => Number.sent_eq_self_iff) v h

/-- The least and the greatest integer with sign, in a list and in an object. -/
def extremes : Json :=
  .object [("range", .array [.integer (-9223372036854775808), .integer 9223372036854775807]),
    ("label", .object [("of", .string "Long"), ("unit", .null), ("closed", .bool true)])]

theorem sent_of_decode_extremes :
    extremes.Within Number.IsInteger64 (fun _ => True) ∧
    ∃ scalar : RawScalar "Range", CustomScalar.decode extremes = .ok scalar ∧
      scalar.toInput.toJson = extremes.mapNumbers Number.sent ∧
      (scalar.toInput.toJson = extremes ↔ extremes.Within Number.IsInt64 (fun _ => True)) := by
  have h : extremes.Within Number.IsInteger64 (fun _ => True) := by decide +kernel
  exact ⟨h, sent_of_decode h⟩

/-- The greatest integer without sign comes back as the double next to it. -/
theorem exists_sent_ne : ∃ (v : Json) (scalar : RawScalar "Range"),
    v.Within Number.IsInteger64 (fun _ => True) ∧ CustomScalar.decode v = .ok scalar ∧
    scalar.toInput.toJson = .number (.float (.finite false (Nat.pow 2 52) 12)) ∧
    scalar.toInput.toJson ≠ v := by
  have hdouble : Number.sent (.integer 18446744073709551615) =
      .float (.finite false (Nat.pow 2 52) 12) := by
    decide +kernel
  refine ⟨.integer 18446744073709551615, ⟨.integer 18446744073709551615⟩, by decide +kernel, rfl,
    congrArg Json.number hdouble, fun h => ?_⟩
  injection h with h
  cases h

end RawScalar

end Graphwright
