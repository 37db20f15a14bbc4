/-!
Cutting text into pieces. Main statements: a separator ends the pieces in front of it, and no piece
holds one.
-/
namespace Graphwright.Text

/-- The pieces between the characters that satisfy `cut`; there is one more piece than cuts. -/
def splitWhere (cut : Char → Bool) : List Char → List (List Char)
  | [] => [[]]
  | c :: cs =>
    if cut c then [] :: splitWhere cut cs
    else match splitWhere cut cs with
      | [] => [[c]]
      | piece :: pieces => (c :: piece) :: pieces

theorem splitWhere_ne_nil (cut : Char → Bool) (cs : List Char) : splitWhere cut cs ≠ [] := by
  cases cs with
  | nil => simp [splitWhere]
  | cons c cs =>
    simp only [splitWhere]
    split
    · simp
    · split <;> simp

/-- A separator ends the pieces of what is in front of it. -/
theorem splitWhere_append {cut : Char → Bool} {mark : Char} (hmark : cut mark = true)
    (before after : List Char) :
    splitWhere cut (before ++ mark :: after) = splitWhere cut before ++ splitWhere cut after := by
  induction before with
  | nil => simp [splitWhere, hmark]
  | cons c before ih =>
    rw [List.cons_append, splitWhere, splitWhere, ih]
    split
    · rfl
    · cases hs : splitWhere cut before with
      | nil => exact absurd hs (splitWhere_ne_nil cut before)
      | cons piece pieces => rfl

/-- Pieces hold no separator. -/
theorem not_cut_of_mem_splitWhere {cut : Char → Bool} {cs piece : List Char}
    (h : piece ∈ splitWhere cut cs) : ∀ c ∈ piece, cut c = false := by
  induction cs generalizing piece with
  | nil => simp [splitWhere] at h; simp [h]
  | cons c cs ih =>
    simp only [splitWhere] at h
    split at h
    · rcases List.mem_cons.mp h with rfl | h
      · simp
      · exact ih h
    · rename_i hc
      cases hs : splitWhere cut cs with
      | nil => exact absurd hs (splitWhere_ne_nil cut cs)
      | cons first rest =>
        rw [hs] at h ih
        rcases List.mem_cons.mp h with rfl | h
        · intro d hd
          rcases List.mem_cons.mp hd with rfl | hd
          · simpa using hc
          · exact ih (List.mem_cons_self ..) d hd
        · exact ih (List.mem_cons_of_mem _ h)

/-- The parts of `cs` before and after the first `mark`, if there is one. -/
def splitFirst? (mark : Char) : List Char → Option (List Char × List Char)
  | [] => none
  | c :: cs =>
    if c = mark then some ([], cs)
    else (splitFirst? mark cs).map fun (before, after) => (c :: before, after)

end Graphwright.Text
