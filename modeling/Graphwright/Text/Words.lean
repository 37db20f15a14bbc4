import Graphwright.Text.Letters
import Graphwright.Text.Split

/-!
The words of a name and the three spellings made of them: `snake_case`, `SHOUTY_SNAKE_CASE` and
`UpperCamelCase`. A word ends where lower case is followed by upper case, and before an upper-case
character that leads from an upper-case run into lower case. Main statement: no word is empty, so
the spellings of a name without alphanumeric characters are empty and no other is.
-/
namespace Graphwright.Text

/-- The case of the last cased character of a word. -/
inductive WordCase
  | unset | lower | upper
  deriving DecidableEq, Repr

/-- The case after reading `c`. -/
def WordCase.after (mode : WordCase) (c : Char) : WordCase :=
  if isLowercase c then .lower else if isUppercase c then .upper else mode

/-- Cuts an alphanumeric piece into words. `word` holds the characters of the current word before
`c`, last first. -/
def wordsFrom (word : List Char) (mode : WordCase) : List Char → List (List Char)
  | [] => if word = [] then [] else [word.reverse]
  | [c] => [(c :: word).reverse]
  | c :: next :: rest =>
    if mode.after c = .lower ∧ isUppercase next then
      (c :: word).reverse :: wordsFrom [] .unset (next :: rest)
    else if mode = .upper ∧ isUppercase c ∧ isLowercase next then
      word.reverse :: wordsFrom [c] .unset (next :: rest)
    else wordsFrom (c :: word) (mode.after c) (next :: rest)

def words (cs : List Char) : List (List Char) :=
  (splitWhere (fun c => !isAlphanumeric c) cs).flatMap (wordsFrom [] .unset)

/-- Lower case, with a last sigma in its final form. -/
def lowerWord : List Char → List Char
  | [] => []
  | [c] => if c = 'Σ' then ['ς'] else toLowercase c
  | c :: cs => toLowercase c ++ lowerWord cs

def upperWord (word : List Char) : List Char := word.flatMap toUppercase

def capitalWord : List Char → List Char
  | [] => []
  | c :: cs => toUppercase c ++ lowerWord cs

def joinWords (separator : List Char) (words : List (List Char)) : List Char :=
  separator.intercalate words

def snakeCase (s : String) : String :=
  String.ofList (joinWords ['_'] ((words s.toList).map lowerWord))

def shoutyCase (s : String) : String :=
  String.ofList (joinWords ['_'] ((words s.toList).map upperWord))

def upperCamelCase (s : String) : String :=
  String.ofList (joinWords [] ((words s.toList).map capitalWord))

/-- The text with its first character in upper case. -/
def capitalize (s : String) : String :=
  match s.toList with
  | [] => ""
  | c :: cs => String.ofList (toUppercase c ++ cs)

theorem wordsFrom_ne_nil {word : List Char} {mode : WordCase} {cs w : List Char}
    (hm : mode = .upper → word ≠ []) (h : w ∈ wordsFrom word mode cs) : w ≠ [] := by
  fun_induction wordsFrom word mode cs with
  | case1 => simp at h
  | case2 => rename_i hw; simp only [List.mem_singleton] at h; subst h; simpa using hw
  | case3 => simp only [List.mem_singleton] at h; subst h; simp
  | case4 word mode c next rest _ ih =>
    rcases List.mem_cons.mp h with rfl | h
    · simp
    · exact ih (by simp) h
  | case5 word mode c next rest _ hu ih =>
    rcases List.mem_cons.mp h with rfl | h
    · simpa using hm hu.1
    · exact ih (by simp) h
  | case6 word mode c next rest _ _ ih => exact ih (by simp) h

theorem ne_nil_of_mem_words {cs w : List Char} (h : w ∈ words cs) : w ≠ [] := by
  obtain ⟨piece, _, hw⟩ := List.mem_flatMap.mp h
  exact wordsFrom_ne_nil (by simp) hw

end Graphwright.Text
