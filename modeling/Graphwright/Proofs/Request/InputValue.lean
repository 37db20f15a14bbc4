import Graphwright.Proofs.Request.StringLiteral
import Graphwright.Proofs.Request.Word
import Graphwright.Request.InputValue

/-!
# Values and arguments are read back

The first character of a literal tells what kind of value it stands for, and what stands behind a
value in a document continues no word. Doubles are left out: one without a fraction is written as an
integer is.
-/
namespace Graphwright

open Text (Stops ReadsBack)
open Schema (IsName)

namespace InputValue

open Request

mutual
/-- Names are names of the query language, those of enum values none of its three constants, and
there are no doubles. -/
def WellNamed : InputValue → Prop
  | null => True
  | int _ => True
  | float _ => False
  | boolean _ => True
  | string _ => True
  | enum name => IsName name ∧ name ≠ "true" ∧ name ≠ "false" ∧ name ≠ "null"
  | list vs => WellNamedList vs
  | object fs => WellNamedFields fs

def WellNamedList : List InputValue → Prop
  | [] => True
  | v :: vs => WellNamed v ∧ WellNamedList vs

def WellNamedFields : List (String × InputValue) → Prop
  | [] => True
  | (name, v) :: fs => IsName name ∧ WellNamed v ∧ WellNamedFields fs
end

/-- The same of one field or argument. -/
def WellNamedField (f : String × InputValue) : Prop := IsName f.1 ∧ WellNamed f.2

theorem wellNamedList_iff {vs : List InputValue} : WellNamedList vs ↔ ∀ v ∈ vs, WellNamed v := by
  induction vs with
  | nil => simp [WellNamedList]
  | cons v vs ih => simp [WellNamedList, ih]

theorem wellNamedFields_iff {fs : List (String × InputValue)} :
    WellNamedFields fs ↔ ∀ f ∈ fs, WellNamedField f := by
  induction fs with
  | nil => simp [WellNamedFields]
  | cons f fs ih =>
      obtain ⟨name, v⟩ := f
      simp [WellNamedFields, WellNamedField, ih, and_assoc]

/-- The literal, character by character. -/
def chars (v : InputValue) : List Char := v.text.toList

def fieldChars (f : String × InputValue) : List Char := f.1.toList ++ (": ".toList ++ f.2.chars)

theorem elementTexts_eq_map (vs : List InputValue) : elementTexts vs = vs.map text := by
  induction vs with
  | nil => rfl
  | cons v vs ih => simp [elementTexts, ih]

theorem fieldTexts_eq_map (fs : List (String × InputValue)) :
    fieldTexts fs = fs.map fun f => f.1 ++ ": " ++ f.2.text := by
  induction fs with
  | nil => rfl
  | cons f fs ih => simp [fieldTexts, ih]

theorem toList_fieldTexts (fs : List (String × InputValue)) :
    (", ".intercalate (fieldTexts fs)).toList = Text.separated [',', ' '] fieldChars fs := by
  rw [fieldTexts_eq_map, Text.toList_intercalate]
  congr 1
  funext f
  simp [fieldChars, chars, String.toList_append]

theorem chars_string (s : String) : (string s).chars = StringLiteral.chars s.toList := by
  simp [chars, text, StringLiteral.write]

theorem chars_list (vs : List InputValue) :
    (list vs).chars = '[' :: (Text.separated [',', ' '] chars vs ++ [']']) := by
  simp only [chars, text, elementTexts_eq_map, String.toList_append, Text.toList_intercalate]
  rfl

theorem chars_object (fs : List (String × InputValue)) :
    (object fs).chars = '\x7b' :: (Text.separated [',', ' '] fieldChars fs ++ ['\x7d']) := by
  simp only [chars, text, String.toList_append, toList_fieldTexts]
  rfl

/-! ### The first character -/

/-- What the first character of a literal tells about the value. -/
inductive Lead
  | word | quote | bracket | brace
  deriving DecidableEq

def Lead.ofChar? (c : Char) : Option Lead :=
  if isWordChar c then some word
  else if c = '"' then some quote
  else if c = '[' then some bracket
  else if c = '\x7b' then some brace
  else none

/-- The text starts as the literals of such values do. -/
def Lead.Starts (lead : Lead) (cs : List Char) : Prop :=
  ∃ d ds, cs = d :: ds ∧ ofChar? d = some lead

theorem Lead.Starts.eq_of_append_eq {l m : Lead} {cs ds s t : List Char} (hl : l.Starts cs)
    (hm : m.Starts ds) (h : cs ++ s = ds ++ t) : l = m := by
  obtain ⟨c, cs, rfl, lc⟩ := hl
  obtain ⟨d, ds, rfl, ld⟩ := hm
  rw [List.cons_append, List.cons_append, List.cons.injEq] at h
  obtain ⟨rfl, _⟩ := h
  exact Option.some.inj (lc.symm.trans ld)

/-- No literal starts as a closing bracket does. -/
theorem Lead.Starts.append_ne {l : Lead} {cs : List Char} (h : l.Starts cs) {c : Char}
    (hc : ofChar? c = none) (s t : List Char) : cs ++ s ≠ [c] ++ t := by
  obtain ⟨d, ds, rfl, ld⟩ := h
  intro e
  cases e
  rw [hc] at ld
  cases ld

def lead : InputValue → Lead
  | string _ => .quote
  | list _ => .bracket
  | object _ => .brace
  | _ => .word

theorem isWord_chars {v : InputValue} (h : v.WellNamed) (hl : v.lead = .word) :
    ∀ c ∈ v.chars, isWordChar c = true := by
  cases v with
  | null => exact List.all_eq_true.mp rfl
  | int n => exact isWord_toString_int n
  | float x => exact False.elim h
  | boolean b => cases b <;> exact List.all_eq_true.mp rfl
  | enum name => exact isWord_of_isName h.1
  | _ => cases hl

theorem chars_ne_nil {v : InputValue} (h : v.WellNamed) (hl : v.lead = .word) : v.chars ≠ [] := by
  cases v with
  | null => exact by decide
  | int n =>
      intro he
      have ht : toString n = "" := String.toList_injective he
      rw [Int.toString_eq_repr, Int.repr_eq_if] at ht
      split at ht
      · exact Nat.repr_ne_empty ht
      · simp at ht
  | float x => exact False.elim h
  | boolean b => cases b <;> exact by decide
  | enum name =>
      obtain ⟨⟨c, cs, e, _⟩, _⟩ := h
      simp [chars, text, e]
  | _ => cases hl

theorem chars_lead {v : InputValue} (h : v.WellNamed) : v.lead.Starts v.chars := by
  cases hl : v.lead with
  | word =>
      have hw := isWord_chars h hl
      cases hc : v.chars with
      | nil => exact absurd hc (chars_ne_nil h hl)
      | cons c cs =>
          rw [hc] at hw
          exact ⟨c, cs, rfl, if_pos (hw c (by simp))⟩
  | quote =>
      cases v <;> cases hl
      exact ⟨'"', _, chars_string _, by decide⟩
  | bracket =>
      cases v <;> cases hl
      exact ⟨'[', _, chars_list _, by decide⟩
  | brace =>
      cases v <;> cases hl
      exact ⟨'\x7b', _, chars_object _, by decide⟩

theorem lead_eq_of_append_eq {v w : InputValue} {s t : List Char} (hv : v.WellNamed)
    (hw : w.WellNamed) (h : v.chars ++ s = w.chars ++ t) : v.lead = w.lead :=
  (chars_lead hv).eq_of_append_eq (chars_lead hw) h

theorem fieldChars_append_ne {f : String × InputValue} (h : WellNamedField f) {c : Char}
    (hc : isWordChar c = false) (s t : List Char) : fieldChars f ++ s ≠ [c] ++ t := by
  obtain ⟨d, ds, hd, _⟩ := h.1
  have hw := isWord_of_isName h.1 d (by rw [hd]; simp)
  rw [fieldChars, hd]
  intro e
  cases e
  rw [hc] at hw
  cases hw

/-! ### Reading back -/

theorem isName_null : IsName "null" := by decide

theorem isName_boolean (b : Bool) : IsName (boolean b).text := by
  cases b <;> decide

/-- Values that are words are told apart by these. -/
theorem eq_of_word_text {v w : InputValue} (hv : v.WellNamed) (hw : w.WellNamed)
    (lv : v.lead = .word) (lw : w.lead = .word) (h : v.text = w.text) : v = w := by
  cases v with
  | null =>
      cases w with
      | null => rfl
      | int n => exact absurd h (isName_ne_int isName_null n)
      | float x => exact False.elim hw
      | boolean b => cases b <;> exact absurd h (by decide)
      | enum name => exact absurd h.symm hw.2.2.2
      | _ => cases lw
  | int m =>
      cases w with
      | null => exact absurd h.symm (isName_ne_int isName_null m)
      | int n =>
          have he : m = n := by
            simp only [text, Int.toString_eq_repr] at h
            exact Int.repr_injective h
          rw [he]
      | float x => exact False.elim hw
      | boolean b => exact absurd h.symm (isName_ne_int (isName_boolean b) m)
      | enum name => exact absurd h.symm (isName_ne_int hw.1 m)
      | _ => cases lw
  | float x => exact False.elim hv
  | boolean a =>
      cases w with
      | null => cases a <;> exact absurd h (by decide)
      | int n => exact absurd h (isName_ne_int (isName_boolean a) n)
      | float x => exact False.elim hw
      | boolean b => cases a <;> cases b <;> first | rfl | exact absurd h (by decide)
      | enum name =>
          cases a
          · exact absurd h.symm hw.2.2.1
          · exact absurd h.symm hw.2.1
      | _ => cases lw
  | enum name =>
      cases w with
      | null => exact absurd h hv.2.2.2
      | int n => exact absurd h (isName_ne_int hv.1 n)
      | float x => exact False.elim hw
      | boolean b =>
          cases b
          · exact absurd h hv.2.2.1
          · exact absurd h hv.2.1
      | enum other =>
          have he : name = other := h
          rw [he]
      | _ => cases lw
  | _ => cases lv

/-- What follows a value is no part of a word. -/
abbrev Follows : List Char → Prop := Stops isWordChar

theorem readsBack_of_word {v : InputValue} (hv : v.WellNamed) (lv : v.lead = .word) :
    ReadsBack chars WellNamed Follows v := by
  intro w s t hw hs ht h
  have lw : w.lead = .word := lead_eq_of_append_eq hv hw h ▸ lv
  obtain ⟨hc, hst⟩ := Text.word_append_inj (isWord_chars hv lv) (isWord_chars hw lw) hs ht h
  exact ⟨eq_of_word_text hv hw lv lw (String.toList_injective hc), hst⟩

/-- Fields are read back if their values are. -/
theorem readsBack_field {f : String × InputValue} (hf : WellNamedField f)
    (hv : ReadsBack chars WellNamed Follows f.2) :
    ReadsBack fieldChars WellNamedField Follows f := by
  intro g s t hg hs ht h
  simp only [fieldChars, List.append_assoc] at h
  have hcolon : ∀ u, Follows (": ".toList ++ u) := fun u => Stops.cons (by decide) _
  obtain ⟨hn, h'⟩ := readsBack_name hf.1 g.1 _ _ hg.1 (hcolon _) (hcolon _) h
  obtain ⟨hv, hst⟩ := hv g.2 s t hg.2 hs ht (List.append_cancel_left h')
  exact ⟨Prod.ext hn hv, hst⟩

/-- Comma-separated values are read back up to a closing bracket. -/
theorem readsBack_elements {vs : List InputValue} (hvs : ∀ v ∈ vs, v.WellNamed)
    (hread : ∀ v ∈ vs, ReadsBack chars WellNamed Follows v) :
    ReadsBack (fun vs => Text.separated [',', ' '] chars vs ++ [']'])
      (fun ws => ∀ w ∈ ws, WellNamed w) (fun _ => True) vs :=
  Text.readsBack_separated (fun _ s t h => (chars_lead h).append_ne (by decide) s t)
    (fun _ _ h => by cases h) (fun _ => Stops.cons (by decide) _)
    (fun _ => Stops.cons (by decide) _) hread hvs

/-- Comma-separated fields are read back up to a closing character that no name holds. -/
theorem readsBack_fields {fs : List (String × InputValue)} (close : Char)
    (hclose : isWordChar close = false) (hcomma : close ≠ ',') (hfs : ∀ f ∈ fs, WellNamedField f)
    (hread : ∀ f ∈ fs, ReadsBack chars WellNamed Follows f.2) :
    ReadsBack (fun fs => Text.separated [',', ' '] fieldChars fs ++ [close])
      (fun gs => ∀ g ∈ gs, WellNamedField g) (fun _ => True) fs :=
  Text.readsBack_separated (fun _ s t h => fieldChars_append_ne h hclose s t)
    (fun _ _ h => by cases h; exact hcomma rfl) (fun _ => Stops.cons (by decide) _)
    (fun _ => Stops.cons hclose _) (fun f hf => readsBack_field (hfs f hf) (hread f hf)) hfs

mutual
theorem readsBack : (v : InputValue) → v.WellNamed → ReadsBack chars WellNamed Follows v
  | null, h => readsBack_of_word h rfl
  | int _, h => readsBack_of_word h rfl
  | float _, h => False.elim h
  | boolean _, h => readsBack_of_word h rfl
  | enum _, h => readsBack_of_word h rfl
  | string s, h => by
      intro w u t hw hu ht e
      have lw := lead_eq_of_append_eq h hw e
      cases w <;> cases lw
      rw [chars_string, chars_string] at e
      obtain ⟨hs, hut⟩ := StringLiteral.readsBack_chars _ _ u t trivial trivial trivial e
      rw [String.toList_injective hs]
      exact ⟨rfl, hut⟩
  | list vs, h => by
      intro w u t hw hu ht e
      have lw := lead_eq_of_append_eq h hw e
      cases w <;> cases lw
      rename_i ws
      rw [chars_list, chars_list, List.cons_append, List.cons_append, List.cons.injEq] at e
      obtain ⟨hvs, hut⟩ := readsBack_elements (wellNamedList_iff.mp h) (readsBack_all vs h) ws u t
        (wellNamedList_iff.mp hw) trivial trivial e.2
      rw [hvs]
      exact ⟨rfl, hut⟩
  | object fs, h => by
      intro w u t hw hu ht e
      have lw := lead_eq_of_append_eq h hw e
      cases w <;> cases lw
      rename_i gs
      rw [chars_object, chars_object, List.cons_append, List.cons_append, List.cons.injEq] at e
      obtain ⟨hfs, hut⟩ := readsBack_fields '\x7d' (by decide) (by decide)
        (wellNamedFields_iff.mp h) (readsBack_allFields fs h) gs u t
        (wellNamedFields_iff.mp hw) trivial trivial e.2
      rw [hfs]
      exact ⟨rfl, hut⟩

theorem readsBack_all : (vs : List InputValue) → WellNamedList vs →
    ∀ v ∈ vs, ReadsBack chars WellNamed Follows v
  | [], _ => by simp
  | v :: vs, h => by
      intro w hw
      rcases List.mem_cons.mp hw with hw | hw
      · exact hw ▸ readsBack v h.1
      · exact readsBack_all vs h.2 w hw

theorem readsBack_allFields : (fs : List (String × InputValue)) → WellNamedFields fs →
    ∀ f ∈ fs, ReadsBack chars WellNamed Follows f.2
  | [], _ => by simp
  | (name, v) :: fs, h => by
      intro g hg
      rcases List.mem_cons.mp hg with hg | hg
      · exact hg ▸ readsBack v h.2.1
      · exact readsBack_allFields fs h.2.2 g hg
end

end InputValue

/-! ## Arguments -/

namespace Arguments

def WellNamed (arguments : Arguments) : Prop := ∀ f ∈ arguments, InputValue.WellNamedField f

def chars (arguments : Arguments) : List Char := arguments.text.toList

theorem chars_cons (f : String × InputValue) (fs : Arguments) :
    chars (f :: fs)
      = '(' :: (Text.separated [',', ' '] InputValue.fieldChars (f :: fs) ++ [')']) := by
  simp only [chars, text, List.isEmpty_cons, Bool.false_eq_true, ↓reduceIte, String.toList_append,
    InputValue.toList_fieldTexts]
  rfl

/-- Nothing is written for no arguments, so no parenthesis may follow. -/
theorem readsBack {fs : Arguments} (h : WellNamed fs) :
    ReadsBack chars WellNamed (Stops (· = '(')) fs := by
  intro gs s t hg hs ht e
  cases fs with
  | nil =>
      cases gs with
      | nil => exact ⟨rfl, e⟩
      | cons g gs =>
          rw [chars_cons] at e
          have hp := hs '(' _ e
          exact absurd hp (by decide)
  | cons f fs =>
      cases gs with
      | nil =>
          rw [chars_cons] at e
          have hp := ht '(' _ e.symm
          exact absurd hp (by decide)
      | cons g gs =>
          rw [chars_cons, chars_cons, List.cons_append, List.cons_append, List.cons.injEq] at e
          exact InputValue.readsBack_fields ')' (by decide) (by decide) h
            (fun f hf => InputValue.readsBack f.2 (h f hf).2) (g :: gs) s t hg trivial trivial e.2

end Arguments

end Graphwright
