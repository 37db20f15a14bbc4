import Graphwright.Proofs.Text.ReadBack
import Graphwright.Schema.Lexeme
import Std.Data.String.ToInt

/-!
# Words of a document

Names and integers are words: they end at the first character that belongs to no word. No name is
written as an integer is.
-/
namespace Graphwright

open Text (Stops ReadsBack)

/-- A name of the query language: a letter or an underscore, then letters, digits and
underscores. -/
def Schema.IsName (name : String) : Prop :=
  ∃ c cs, name.toList = c :: cs ∧ Lexeme.isNameStart c = true ∧
    ∀ d ∈ cs, Lexeme.isNameContinue d = true

open Schema (IsName)

instance Schema.decidableIsName (name : String) : Decidable (IsName name) :=
  decidable_of_iff
    (name.toList.head?.any Lexeme.isNameStart = true ∧
      name.toList.tail.all Lexeme.isNameContinue = true) <| by
    unfold IsName
    cases name.toList with
    | nil => simp
    | cons c cs =>
        rw [List.tail_cons, List.all_eq_true]
        exact ⟨fun h => ⟨c, cs, rfl, by simpa using h.1, h.2⟩, fun ⟨_, _, e, h⟩ => by
          cases e
          exact ⟨by simpa using h.1, h.2⟩⟩

theorem Schema.Lexeme.isNameContinue_of_isNameStart {c : Char} (h : isNameStart c = true) :
    isNameContinue c = true := by
  simp only [isNameStart, Bool.or_eq_true] at h
  rw [isNameContinue, Char.isAlphanum, Bool.or_eq_true, Bool.or_eq_true]
  exact h.imp_left Or.inl

namespace Request

/-- The characters of names and of integers. -/
def isWordChar (c : Char) : Bool := Schema.Lexeme.isNameContinue c || c = '-'

theorem isWordChar_of_isNameStart {c : Char} (h : Schema.Lexeme.isNameStart c = true) :
    isWordChar c = true := by
  simp [isWordChar, Schema.Lexeme.isNameContinue_of_isNameStart h]

theorem isWordChar_of_isDigit {c : Char} (h : c.isDigit = true) : isWordChar c = true := by
  simp [isWordChar, Schema.Lexeme.isNameContinue, Char.isAlphanum, h]

theorem isWord_of_isName {name : String} (h : IsName name) :
    ∀ c ∈ name.toList, isWordChar c = true := by
  obtain ⟨c, cs, e, hc, hcs⟩ := h
  intro d hd
  rw [e] at hd
  rcases List.mem_cons.mp hd with rfl | hd
  · exact isWordChar_of_isNameStart hc
  · simp [isWordChar, hcs d hd]

theorem readsBack_name {name : String} (h : IsName name) :
    ReadsBack String.toList IsName (Stops isWordChar) name := by
  intro b s t hb hs ht e
  obtain ⟨hn, hst⟩ := Text.word_append_inj (isWord_of_isName h) (isWord_of_isName hb) hs ht e
  exact ⟨String.toList_injective hn, hst⟩

/-- An integer is written with digits and the minus sign. -/
theorem mem_toString_int {n : Int} {c : Char} (h : c ∈ (toString n).toList) :
    c.isDigit = true ∨ c = '-' := by
  rw [Int.toString_eq_repr, Int.repr_eq_if] at h
  split at h
  · rw [Nat.toList_repr] at h
    exact Or.inl (Nat.isDigit_of_mem_toDigits (by decide) (by decide) h)
  · rw [String.toList_append, Nat.toList_repr] at h
    rcases List.mem_append.mp h with h | h
    · exact Or.inr (by simpa using h)
    · exact Or.inl (Nat.isDigit_of_mem_toDigits (by decide) (by decide) h)

theorem isWord_toString_int (n : Int) : ∀ c ∈ (toString n).toList, isWordChar c = true := by
  intro c h
  rcases mem_toString_int h with h | rfl
  · exact isWordChar_of_isDigit h
  · rfl

theorem not_isNameStart_of_isDigit {c : Char} (h : c.isDigit = true) :
    Schema.Lexeme.isNameStart c = false := by
  have hle : c.val ≤ '9'.val := by
    have hd : '0'.val ≤ c.val ∧ c.val ≤ '9'.val := by simpa [Char.isDigit] using h
    exact hd.2
  have hupper : ¬ 'A'.val ≤ c.val := fun h => absurd (UInt32.le_trans h hle) (by decide)
  have hlower : ¬ 'a'.val ≤ c.val := fun h => absurd (UInt32.le_trans h hle) (by decide)
  have hc : c ≠ '_' := by
    rintro rfl
    exact absurd hle (by decide)
  have e : Schema.Lexeme.isNameStart c = (decide ('A'.val ≤ c.val ∧ c.val ≤ 'Z'.val)
      || (decide ('a'.val ≤ c.val) && decide (c.val ≤ 'z'.val)) || decide (c = '_')) := rfl
  rw [e, decide_eq_false (fun h => hupper h.1), decide_eq_false hlower, decide_eq_false hc]
  rfl

/-- No name is written as an integer is. -/
theorem isName_ne_int {name : String} (h : IsName name) (n : Int) : name ≠ toString n := by
  obtain ⟨c, cs, e, hc, _⟩ := h
  rintro rfl
  rcases mem_toString_int (c := c) (by rw [e]; simp) with hd | rfl
  · rw [not_isNameStart_of_isDigit hd] at hc
    cases hc
  · exact absurd hc (by decide)

end Request

end Graphwright
