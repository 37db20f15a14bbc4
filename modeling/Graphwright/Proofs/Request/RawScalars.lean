import Mathlib.Data.List.Infix
import Graphwright.Proofs.Request.InputValue
import Graphwright.Response.RawScalar

/-!
# Raw custom scalars as literals

A raw scalar is sent as the literal of the JSON value that it holds. Its strings are escaped, its
keys are written as they are. Main statement: values whose numbers are 64-bit integers are told
apart by their literals if no key holds a colon with a space behind it, which is where a key ends,
or starts with the brace that closes an object.
-/
namespace Graphwright

open Text (Stops ReadsBack)

/-! ## Conditions on numbers and keys -/

namespace Json

section

variable (number : Number → Prop) (key : String → Prop)

mutual
/-- All numbers and all keys, however deep in the value, satisfy a condition. -/
def Within : Json → Prop
  | null => True
  | bool _ => True
  | .number n => number n
  | string _ => True
  | array es => WithinElements es
  | object ms => WithinMembers ms

def WithinElements : List Json → Prop
  | [] => True
  | e :: es => Within e ∧ WithinElements es

def WithinMembers : List (String × Json) → Prop
  | [] => True
  | (k, v) :: ms => key k ∧ Within v ∧ WithinMembers ms
end

end

variable {number : Number → Prop} {key : String → Prop}

theorem withinElements_iff {es : List Json} :
    WithinElements number key es ↔ ∀ e ∈ es, e.Within number key := by
  induction es with
  | nil => simp [WithinElements]
  | cons e es ih => simp [WithinElements, ih]

theorem withinMembers_iff {ms : List (String × Json)} :
    WithinMembers number key ms ↔ ∀ m ∈ ms, key m.1 ∧ m.2.Within number key := by
  induction ms with
  | nil => simp [WithinMembers]
  | cons m ms ih =>
      obtain ⟨k, v⟩ := m
      simp [WithinMembers, ih, and_assoc]

section

variable [DecidablePred number] [DecidablePred key]

mutual
instance decidableWithin : (v : Json) → Decidable (v.Within number key)
  | null => inferInstanceAs (Decidable True)
  | bool _ => inferInstanceAs (Decidable True)
  | .number n => inferInstanceAs (Decidable (number n))
  | string _ => inferInstanceAs (Decidable True)
  | array es => decidableWithinElements es
  | object ms => decidableWithinMembers ms

def decidableWithinElements : (es : List Json) → Decidable (WithinElements number key es)
  | [] => inferInstanceAs (Decidable True)
  | e :: es =>
    have := decidableWithin e
    have := decidableWithinElements es
    inferInstanceAs (Decidable (_ ∧ _))

def decidableWithinMembers : (ms : List (String × Json)) → Decidable (WithinMembers number key ms)
  | [] => inferInstanceAs (Decidable True)
  | (_, v) :: ms =>
    have := decidableWithin v
    have := decidableWithinMembers ms
    inferInstanceAs (Decidable (_ ∧ _ ∧ _))
end

end

/-- An integer of 64 bits with sign. -/
def Number.IsInt64 : Number → Prop
  | .integer n => -Int.pow 2 63 ≤ n ∧ n < Int.pow 2 63
  | .float _ => False

/-- A key that ends where a reader takes it to end. -/
structure PlainKey (key : String) : Prop where
  separator : ¬ [':', ' '] <:+: key.toList
  brace : ∀ cs, key.toList ≠ '\x7d' :: cs

instance Number.decidableIsInt64 (n : Number) : Decidable n.IsInt64 :=
  match n with
  | .integer _ => inferInstanceAs (Decidable (_ ∧ _))
  | .float _ => inferInstanceAs (Decidable False)

instance decidablePlainKey (key : String) : Decidable (PlainKey key) :=
  decidable_of_iff (¬ [':', ' '] <:+: key.toList ∧ key.toList.head? ≠ some '\x7d')
    ⟨fun h => ⟨h.1, fun cs e => h.2 (by rw [e]; rfl)⟩, fun h => ⟨h.separator, fun e => by
      obtain ⟨cs, e⟩ := List.head?_eq_some_iff.mp e
      exact h.brace cs e⟩⟩

/-! ## Keys -/

/-- Of two words that do not hold a separator of two distinct characters, each ends where the
separator stands. -/
theorem separator_append_inj {a b : Char} (hab : a ≠ b) {xs ys s t : List Char}
    (hx : ¬ [a, b] <:+: xs) (hy : ¬ [a, b] <:+: ys) (h : xs ++ a :: b :: s = ys ++ a :: b :: t) :
    xs = ys ∧ s = t := by
  -- a word that starts with the separator, or with its first character alone, is too long
  have hstart : ∀ {c : Char} {zs u v : List Char}, ¬ [a, b] <:+: c :: zs →
      a :: b :: u ≠ c :: zs ++ a :: b :: v := by
    intro c zs u v hz e
    cases zs with
    | nil =>
        cases e
        exact hab rfl
    | cons d zs =>
        cases e
        exact hz ⟨[], zs, rfl⟩
  induction xs generalizing ys with
  | nil =>
      cases ys with
      | nil =>
          cases h
          exact ⟨rfl, rfl⟩
      | cons y ys => exact absurd h (hstart hy)
  | cons x xs ih =>
      cases ys with
      | nil => exact absurd h.symm (hstart hx)
      | cons y ys =>
          rw [List.cons_append, List.cons_append, List.cons.injEq] at h
          obtain ⟨rfl, h⟩ := h
          obtain ⟨rfl, hst⟩ := ih (fun hin => hx (hin.trans (List.suffix_cons x xs).isInfix))
            (fun hin => hy (hin.trans (List.suffix_cons x ys).isInfix)) h
          exact ⟨rfl, hst⟩

/-! ## Literals -/

open InputValue (ofJson ofNumber fieldChars Lead Follows)

abbrev IsPlain : Json → Prop := Within Number.IsInt64 PlainKey

/-- The literal of a value, character by character. -/
def literal (v : Json) : List Char := (ofJson v).chars

def memberLiteral (m : String × Json) : List Char := fieldChars (m.1, ofJson m.2)

theorem ofElements_eq_map (es : List Json) : InputValue.ofElements es = es.map ofJson := by
  induction es with
  | nil => rfl
  | cons e es ih => rw [InputValue.ofElements, ih, List.map_cons]

theorem ofMembers_eq_map (ms : List (String × Json)) :
    InputValue.ofMembers ms = ms.map fun m => (m.1, ofJson m.2) := by
  induction ms with
  | nil => rfl
  | cons m ms ih => rw [InputValue.ofMembers, ih, List.map_cons]

theorem literal_array (es : List Json) :
    literal (array es) = '[' :: (Text.separated [',', ' '] literal es ++ [']']) := by
  rw [literal, ofJson, InputValue.chars_list, ofElements_eq_map, Text.separated_map]
  rfl

theorem literal_object (ms : List (String × Json)) :
    literal (object ms) = '\x7b' :: (Text.separated [',', ' '] memberLiteral ms ++ ['\x7d']) := by
  rw [literal, ofJson, InputValue.chars_object, ofMembers_eq_map, Text.separated_map]
  rfl

theorem ofNumber_of_isInt64 {n : Number} (h : n.IsInt64) : ∃ k, n = .integer k ∧ ofNumber n = .int k := by
  cases n with
  | integer k => exact ⟨k, rfl, if_pos h⟩
  | float x => exact False.elim h

/-- What the first character of the literal tells about the value. -/
def lead : Json → Lead
  | string _ => .quote
  | array _ => .bracket
  | object _ => .brace
  | _ => .word

theorem lead_ofJson (v : Json) : (ofJson v).lead = v.lead := by
  cases v with
  | number n =>
      rw [ofJson]
      cases n with
      | integer k =>
          rw [ofNumber]
          split <;> rfl
      | float x => rfl
  | _ => rfl

/-- Values that are words hold no names. -/
theorem wellNamed_of_lead {v : Json} (h : v.IsPlain) (hl : v.lead = .word) :
    (ofJson v).WellNamed := by
  cases v with
  | number n =>
      obtain ⟨k, _, e⟩ := ofNumber_of_isInt64 h
      rw [ofJson, e]
      trivial
  | null => trivial
  | bool b => trivial
  | _ => cases hl

theorem literal_lead {v : Json} (h : v.IsPlain) : v.lead.Starts (literal v) := by
  cases hl : v.lead with
  | word =>
      rw [← hl, ← lead_ofJson]
      exact InputValue.chars_lead (wellNamed_of_lead h hl)
  | quote =>
      cases v <;> cases hl
      exact ⟨'"', _, InputValue.chars_string _, by decide⟩
  | bracket =>
      cases v <;> cases hl
      exact ⟨'[', _, literal_array _, by decide⟩
  | brace =>
      cases v <;> cases hl
      exact ⟨'\x7b', _, literal_object _, by decide⟩

theorem lead_eq_of_append_eq {v w : Json} {s t : List Char} (hv : v.IsPlain) (hw : w.IsPlain)
    (h : literal v ++ s = literal w ++ t) : v.lead = w.lead :=
  (literal_lead hv).eq_of_append_eq (literal_lead hw) h

/-- No member starts as a closing brace does. -/
theorem memberLiteral_append_ne {m : String × Json} (h : PlainKey m.1) (s t : List Char) :
    memberLiteral m ++ s ≠ ['\x7d'] ++ t := by
  rw [memberLiteral, fieldChars]
  intro e
  cases hkey : m.1.toList with
  | nil =>
      rw [hkey] at e
      cases e
  | cons c cs =>
      rw [hkey] at e
      cases e
      exact h.brace cs hkey

/-- Values that are words are sent as different values. -/
theorem eq_of_ofJson_eq {v w : Json} (hv : v.IsPlain) (hw : w.IsPlain) (lv : v.lead = .word)
    (lw : w.lead = .word) (h : ofJson v = ofJson w) : v = w := by
  cases v with
  | number m =>
      obtain ⟨j, rfl, hj⟩ := ofNumber_of_isInt64 hv
      cases w with
      | number n =>
          obtain ⟨k, rfl, hk⟩ := ofNumber_of_isInt64 hw
          rw [ofJson, ofJson, hj, hk] at h
          cases h
          rfl
      | null => cases hj.symm.trans h
      | bool b => cases hj.symm.trans h
      | _ => cases lw
  | null =>
      cases w with
      | number n =>
          obtain ⟨k, rfl, hk⟩ := ofNumber_of_isInt64 hw
          cases h.trans hk
      | null => rfl
      | bool b => cases h
      | _ => cases lw
  | bool a =>
      cases w with
      | number n =>
          obtain ⟨k, rfl, hk⟩ := ofNumber_of_isInt64 hw
          cases h.trans hk
      | null => cases h
      | bool b =>
          cases h
          rfl
      | _ => cases lw
  | _ => cases lv

/-! ### Reading back -/

theorem readsBack_of_word {v : Json} (hv : v.IsPlain) (lv : v.lead = .word) :
    ReadsBack literal IsPlain Follows v := by
  intro w s t hw hs ht h
  have lw : w.lead = .word := lead_eq_of_append_eq hv hw h ▸ lv
  obtain ⟨hvw, hst⟩ := InputValue.readsBack_of_word (wellNamed_of_lead hv lv)
    ((lead_ofJson v).trans lv) (ofJson w) s t (wellNamed_of_lead hw lw) hs ht h
  exact ⟨eq_of_ofJson_eq hv hw lv lw hvw, hst⟩

/-- A member is read back if its value is: its key ends where the first colon with a space behind
it stands. -/
theorem readsBack_member {m : String × Json} (hkey : PlainKey m.1)
    (hv : ReadsBack literal IsPlain Follows m.2) :
    ReadsBack memberLiteral (fun m => PlainKey m.1 ∧ m.2.IsPlain) Follows m := by
  intro n s t hn hs ht h
  simp only [memberLiteral, fieldChars, List.append_assoc] at h
  obtain ⟨hk, h⟩ := separator_append_inj (by decide) hkey.separator hn.1.separator h
  obtain ⟨hv, hst⟩ := hv n.2 s t hn.2 hs ht h
  exact ⟨Prod.ext (String.toList_injective hk) hv, hst⟩

theorem readsBack_elements {es : List Json} (hes : ∀ e ∈ es, e.IsPlain)
    (hread : ∀ e ∈ es, ReadsBack literal IsPlain Follows e) :
    ReadsBack (fun es => Text.separated [',', ' '] literal es ++ [']'])
      (fun es => ∀ e ∈ es, e.IsPlain) (fun _ => True) es :=
  Text.readsBack_separated (fun _ s t h => (literal_lead h).append_ne (by decide) s t)
    (fun _ _ h => by cases h) (fun _ => Stops.cons (by decide) _)
    (fun _ => Stops.cons (by decide) _) hread hes

theorem readsBack_members {ms : List (String × Json)}
    (hms : ∀ m ∈ ms, PlainKey m.1 ∧ m.2.IsPlain)
    (hread : ∀ m ∈ ms, ReadsBack literal IsPlain Follows m.2) :
    ReadsBack (fun ms => Text.separated [',', ' '] memberLiteral ms ++ ['\x7d'])
      (fun ms => ∀ m ∈ ms, PlainKey m.1 ∧ m.2.IsPlain) (fun _ => True) ms :=
  Text.readsBack_separated (fun _ s t h => memberLiteral_append_ne h.1 s t)
    (fun _ _ h => by cases h) (fun _ => Stops.cons (by decide) _)
    (fun _ => Stops.cons (by decide) _) (fun m hm => readsBack_member (hms m hm).1 (hread m hm)) hms

mutual
theorem readsBack : (v : Json) → v.IsPlain → ReadsBack literal IsPlain Follows v
  | null, h => readsBack_of_word h rfl
  | bool _, h => readsBack_of_word h rfl
  | .number _, h => readsBack_of_word h rfl
  -- texts that start alike are of values that are written in one way, so a text, a list and an
  -- object are each compared with their like only
  | string s, h => by
      intro w u t hw hu ht e
      have lw := lead_eq_of_append_eq h hw e
      cases w <;> cases lw
      simp only [literal, ofJson, InputValue.chars_string] at e
      obtain ⟨hs, hut⟩ := StringLiteral.readsBack_chars _ _ u t trivial trivial trivial e
      rw [String.toList_injective hs]
      exact ⟨rfl, hut⟩
  | array es, h => by
      intro w u t hw hu ht e
      have lw := lead_eq_of_append_eq h hw e
      cases w <;> cases lw
      rename_i fs
      rw [literal_array, literal_array, List.cons_append, List.cons_append, List.cons.injEq] at e
      obtain ⟨hes, hut⟩ := readsBack_elements (withinElements_iff.mp h) (readsBack_all es h) fs u t
        (withinElements_iff.mp hw) trivial trivial e.2
      rw [hes]
      exact ⟨rfl, hut⟩
  | object ms, h => by
      intro w u t hw hu ht e
      have lw := lead_eq_of_append_eq h hw e
      cases w <;> cases lw
      rename_i ns
      rw [literal_object, literal_object, List.cons_append, List.cons_append, List.cons.injEq] at e
      obtain ⟨hms, hut⟩ := readsBack_members (withinMembers_iff.mp h) (readsBack_allMembers ms h)
        ns u t (withinMembers_iff.mp hw) trivial trivial e.2
      rw [hms]
      exact ⟨rfl, hut⟩

theorem readsBack_all : (es : List Json) → WithinElements Number.IsInt64 PlainKey es →
    ∀ e ∈ es, ReadsBack literal IsPlain Follows e
  | [], _ => by simp
  | e :: es, h => by
      intro w hw
      rcases List.mem_cons.mp hw with hw | hw
      · exact hw ▸ readsBack e h.1
      · exact readsBack_all es h.2 w hw

theorem readsBack_allMembers : (ms : List (String × Json)) →
    WithinMembers Number.IsInt64 PlainKey ms → ∀ m ∈ ms, ReadsBack literal IsPlain Follows m.2
  | [], _ => by simp
  | (k, v) :: ms, h => by
      intro m hm
      rcases List.mem_cons.mp hm with hm | hm
      · exact hm ▸ readsBack v h.2.1
      · exact readsBack_allMembers ms h.2.2 m hm
end

end Json

/-! ## Raw scalars -/

namespace RawScalar

open Json (PlainKey)

/-- Raw scalars of any two names that have one literal hold one value, if their numbers are 64-bit
integers and their keys are plain. -/
theorem raw_eq_of_text_eq {first second : String} {a : RawScalar first} {b : RawScalar second}
    (ha : a.raw.Within Json.Number.IsInt64 PlainKey)
    (hb : b.raw.Within Json.Number.IsInt64 PlainKey)
    (h : a.toInput.text = b.toInput.text) : a.raw = b.raw :=
  (Json.readsBack a.raw ha b.raw [] [] hb .nil .nil
    (congrArg (fun literal : String => literal.toList ++ []) h)).1

/-- Strings that look like the end of a string, a list and an object, under keys that are no
names. -/
def lookalikes : Json :=
  .object [("", .array [.string "\"]\x7d, a: \x7b", .integer (-3), .null]),
    ("sort by", .object [("a:b", .bool true), ("[", .array [])])]

theorem raw_eq_of_text_eq_lookalikes :
    lookalikes.Within Json.Number.IsInt64 PlainKey ∧
    (⟨lookalikes⟩ : RawScalar "Filter").toInput.text = (⟨lookalikes⟩ : RawScalar "Sort").toInput.text ∧
    (⟨lookalikes⟩ : RawScalar "Filter").raw = (⟨lookalikes⟩ : RawScalar "Sort").raw := by
  have hplain : lookalikes.Within Json.Number.IsInt64 PlainKey := by decide +kernel
  exact ⟨hplain, rfl, raw_eq_of_text_eq hplain hplain rfl⟩

/-- A key with a colon and a space in it is written as two members are. -/
theorem exists_raw_ne_of_text_eq : ∃ a b : RawScalar "Filter",
    a.raw.Within Json.Number.IsInt64 (fun _ => True) ∧
    b.raw.Within Json.Number.IsInt64 (fun _ => True) ∧
    a.toInput.text = b.toInput.text ∧ a.raw ≠ b.raw := by
  refine ⟨⟨.object [("a: 1, b", .integer 2)]⟩, ⟨.object [("a", .integer 1), ("b", .integer 2)]⟩,
    by decide +kernel, by decide +kernel, by decide +kernel, ?_⟩
  intro h
  injection h with h
  injection h with _ h
  cases h

/-- So is a key that starts with the brace that closes an empty object. -/
example : (InputValue.ofJson (.array [.object [("\x7d, \x7bk", .integer 1)]])).text =
    (InputValue.ofJson (.array [.object [], .object [("k", .integer 1)]])).text := by
  decide +kernel

end RawScalar

end Graphwright
