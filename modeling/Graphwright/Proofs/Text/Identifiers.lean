import Graphwright.Proofs.Text.Words
import Graphwright.Text.Identifier

/-!
# Names as identifiers

The spellings of a name keep its letters and digits in their order. So a name of letters, digits and
underscores is spelled as an identifier, in whatever case, exactly if a letter comes first among
them; the underscores in front get lost.
-/
namespace Graphwright.Text

/-! ## The letters and digits of a name -/

theorem flatten_splitWhere (cut : Char → Bool) (cs : List Char) :
    (splitWhere cut cs).flatten = cs.filter (!cut ·) := by
  induction cs with
  | nil => rfl
  | cons c cs ih =>
      rw [splitWhere]
      split
      · rename_i hc
        rw [List.flatten_cons, ih, List.filter_cons_of_neg (by simpa using hc), List.nil_append]
      · rename_i hc
        rw [List.filter_cons_of_pos (by simpa using hc), ← ih]
        cases hs : splitWhere cut cs with
        | nil => exact absurd hs (splitWhere_ne_nil cut cs)
        | cons piece pieces => rfl

theorem splitWhere_of_forall {cut : Char → Bool} {cs : List Char} (h : ∀ c ∈ cs, cut c = false) :
    splitWhere cut cs = [cs] := by
  induction cs with
  | nil => rfl
  | cons c cs ih =>
      obtain ⟨hc, hcs⟩ := List.forall_mem_cons.mp h
      rw [splitWhere, hc, ih hcs]
      rfl

theorem splitWhere_append_cons {cut : Char → Bool} {cs : List Char} (h : ∀ c ∈ cs, cut c = false)
    {mark : Char} (hmark : cut mark = true) (rest : List Char) :
    splitWhere cut (cs ++ mark :: rest) = cs :: splitWhere cut rest := by
  rw [splitWhere_append hmark, splitWhere_of_forall h]
  rfl

theorem flatten_wordsFrom (word : List Char) (mode : WordCase) (cs : List Char) :
    (wordsFrom word mode cs).flatten = word.reverse ++ cs := by
  fun_induction wordsFrom word mode cs <;> simp_all

/-- Words are made of the alphanumeric characters, and of all of them. -/
theorem flatten_words (cs : List Char) : (words cs).flatten = cs.filter isAlphanumeric := by
  have hpieces : ∀ pieces : List (List Char),
      (pieces.flatMap (wordsFrom [] .unset)).flatten = pieces.flatten := by
    intro pieces
    induction pieces with
    | nil => rfl
    | cons piece pieces ih =>
        rw [List.flatMap_cons, List.flatten_append, ih, flatten_wordsFrom, List.flatten_cons]
        rfl
  rw [words, hpieces, flatten_splitWhere]
  simp

/-- The text consists of ASCII letters, digits and underscores. -/
def IsPlain (s : String) : Prop := ∀ c ∈ s.toList, c.isAlphanum = true ∨ c = '_'

theorem isAlphanumeric_eq {c : Char} (h : c.isAlphanum = true ∨ c = '_') :
    isAlphanumeric c = c.isAlphanum := by
  have ha : isAscii c = true := by
    rcases h with h | rfl
    · exact isAscii_of_isAlphanum h
    · decide
  rw [isAlphanumeric, if_pos ha]

theorem IsPlain.append {s t : String} (hs : IsPlain s) (ht : IsPlain t) : IsPlain (s ++ t) := by
  intro c hc
  rw [String.toList_append] at hc
  exact (List.mem_append.mp hc).elim (hs c) (ht c)

theorem IsPlain.isAlphanum_of_mem_words {s : String} (h : IsPlain s) {w : List Char}
    (hw : w ∈ words s.toList) : ∀ c ∈ w, c.isAlphanum = true := by
  intro c hc
  have hmem : c ∈ (words s.toList).flatten := List.mem_flatten.mpr ⟨w, hw, hc⟩
  rw [flatten_words, List.mem_filter] at hmem
  rw [isAlphanumeric_eq (h c hmem.1)] at hmem
  exact hmem.2

/-! ## Characters that lead -/

/-- The first letter or digit of a text, if it has any. -/
def lead? (s : String) : Option Char := s.toList.find? Char.isAlphanum

/-- A letter comes before all digits. -/
def LeadsWithLetter (s : String) : Prop := (lead? s).any Char.isAlpha = true

instance (s : String) : Decidable (LeadsWithLetter s) := inferInstanceAs (Decidable (_ = true))

theorem lead?_append (s t : String) : lead? (s ++ t) = (lead? s).or (lead? t) := by
  rw [lead?, String.toList_append, List.find?_append]
  rfl

/-- A way to spell words: letters stay letters, and digits stay digits. -/
def IsCasing (f : List Char → List Char) : Prop :=
  ∀ c w, (∀ d ∈ c :: w, d.isAlphanum = true) →
    ∃ d rest, f (c :: w) = d :: rest ∧ d.isAlpha = c.isAlpha ∧
      ∀ e ∈ d :: rest, e.isAlphanum = true

theorem isAlphanum_toLower {c : Char} (h : c.isAlphanum = true) : c.toLower.isAlphanum = true := by
  by_cases hu : c.isUpper = true
  · have ha : c.toLower.isAlpha = true := by
      rw [Char.isAlpha_toLower_eq_isAlpha, Char.isAlpha, hu, Bool.true_or]
    rw [Char.isAlphanum, ha, Bool.true_or]
  · rwa [Char.toLower_eq_of_not_isUpper hu]

theorem isAlphanum_toUpper {c : Char} (h : c.isAlphanum = true) : c.toUpper.isAlphanum = true := by
  by_cases hl : c.isLower = true
  · have ha : c.toUpper.isAlpha = true := by
      rw [Char.isAlpha_toUpper_eq_isAlpha, Char.isAlpha, hl, Bool.or_true]
    rw [Char.isAlphanum, ha, Bool.true_or]
  · rwa [Char.toUpper_eq_of_not_isLower hl]

theorem toLowercase_eq {c : Char} (h : c.isAlphanum = true) : toLowercase c = [c.toLower] :=
  if_pos (isAscii_of_isAlphanum h)

theorem toUppercase_eq {c : Char} (h : c.isAlphanum = true) : toUppercase c = [c.toUpper] :=
  if_pos (isAscii_of_isAlphanum h)

theorem lowerWord_eq {w : List Char} (h : ∀ c ∈ w, c.isAlphanum = true) :
    lowerWord w = w.map Char.toLower := by
  fun_induction lowerWord w with
  | case1 => rfl
  | case2 => exact absurd (h 'Σ' List.mem_cons_self) (by decide)
  | case3 c _ => rw [toLowercase_eq (h c List.mem_cons_self)]; rfl
  | case4 c cs _ ih =>
      rw [toLowercase_eq (h c List.mem_cons_self), ih fun d hd => h d (List.mem_cons_of_mem c hd)]
      rfl

theorem upperWord_eq {w : List Char} (h : ∀ c ∈ w, c.isAlphanum = true) :
    upperWord w = w.map Char.toUpper := by
  induction w with
  | nil => rfl
  | cons c w ih =>
      have hw := ih fun d hd => h d (List.mem_cons_of_mem c hd)
      rw [upperWord, List.flatMap_cons, toUppercase_eq (h c List.mem_cons_self)]
      exact congrArg (c.toUpper :: ·) hw

theorem forall_mem_map_isAlphanum {g : Char → Char} {w : List Char}
    (hg : ∀ c, c.isAlphanum = true → (g c).isAlphanum = true)
    (h : ∀ c ∈ w, c.isAlphanum = true) : ∀ c ∈ w.map g, c.isAlphanum = true := by
  intro c hc
  obtain ⟨d, hd, rfl⟩ := List.mem_map.mp hc
  exact hg d (h d hd)

theorem isCasing_lowerWord : IsCasing lowerWord := by
  intro c w h
  rw [lowerWord_eq h]
  exact ⟨_, _, rfl, Char.isAlpha_toLower_eq_isAlpha c,
    forall_mem_map_isAlphanum (fun _ => isAlphanum_toLower) h⟩

theorem isCasing_upperWord : IsCasing upperWord := by
  intro c w h
  rw [upperWord_eq h]
  exact ⟨_, _, rfl, Char.isAlpha_toUpper_eq_isAlpha c,
    forall_mem_map_isAlphanum (fun _ => isAlphanum_toUpper) h⟩

theorem isCasing_capitalWord : IsCasing capitalWord := by
  intro c w h
  obtain ⟨hc, hw⟩ := List.forall_mem_cons.mp h
  refine ⟨c.toUpper, w.map Char.toLower, ?_, Char.isAlpha_toUpper_eq_isAlpha c, ?_⟩
  · rw [capitalWord, toUppercase_eq hc, lowerWord_eq hw]
    rfl
  · exact List.forall_mem_cons.mpr ⟨isAlphanum_toUpper hc,
      forall_mem_map_isAlphanum (fun _ => isAlphanum_toLower) hw⟩

/-! ## Spellings -/

/-- The words of a text in one spelling. -/
def spelled (f : List Char → List Char) (separator : List Char) (s : String) : List Char :=
  joinWords separator ((words s.toList).map f)

section

variable {s : String} {f : List Char → List Char} {separator : List Char}

theorem mem_spelled (hs : IsPlain s) (hf : IsCasing f) (hsep : ∀ c ∈ separator, c = '_') :
    ∀ c ∈ spelled f separator s, c.isAlphanum = true ∨ c = '_' := by
  intro c hc
  rcases mem_joinWords hc with hc | ⟨w, hw, hc⟩
  · exact Or.inr (hsep c hc)
  · obtain ⟨word, hword, rfl⟩ := List.mem_map.mp hw
    obtain ⟨d, ds, rfl⟩ := List.exists_cons_of_ne_nil (ne_nil_of_mem_words hword)
    obtain ⟨e, rest, hspelled, _, hall⟩ := hf d ds (hs.isAlphanum_of_mem_words hword)
    exact Or.inl (hall c (hspelled ▸ hc))

theorem IsPlain.lead?_eq (hs : IsPlain s) : lead? s = (words s.toList).flatten.head? := by
  rw [flatten_words, List.head?_filter, lead?]
  exact List.find?_congr fun c hc => (isAlphanumeric_eq (hs c hc)).symm

/-- A spelling starts with what has become of the first letter or digit. -/
theorem spelled_cases (separator : List Char) (hs : IsPlain s) (hf : IsCasing f) :
    (lead? s = none ∧ spelled f separator s = []) ∨
      ∃ c d rest, lead? s = some c ∧ spelled f separator s = d :: rest ∧
        d.isAlphanum = true ∧ d.isAlpha = c.isAlpha := by
  rw [hs.lead?_eq, spelled]
  cases hw : words s.toList with
  | nil => exact Or.inl ⟨rfl, rfl⟩
  | cons w ws =>
      have hmem : w ∈ words s.toList := hw ▸ List.mem_cons_self
      obtain ⟨c, cs, rfl⟩ := List.exists_cons_of_ne_nil (ne_nil_of_mem_words hmem)
      obtain ⟨d, rest, hspelled, halpha, hall⟩ := hf c cs (hs.isAlphanum_of_mem_words hmem)
      refine Or.inr ⟨c, d, ?_⟩
      rw [List.map_cons, hspelled]
      cases ws <;> exact ⟨_, rfl, rfl, hall d List.mem_cons_self, halpha⟩

/-- An identifier holds only characters that continue one. -/
theorem not_mem_of_isIdentifier {cs : List Char} (h : isIdentifier cs = true) {c : Char}
    (hc : isIdentifierContinue c = false) : c ∉ cs := by
  cases cs with
  | nil => exact List.not_mem_nil
  | cons d cs =>
      obtain ⟨hstart, hrest⟩ := Bool.and_eq_true_iff.mp h
      have hall : ∀ e ∈ d :: cs, isIdentifierContinue e = true := List.forall_mem_cons.mpr
        ⟨isIdentifierContinue_of_start hstart, List.all_eq_true.mp hrest⟩
      exact fun hmem => absurd (hc.symm.trans (hall c hmem)) (by decide)

theorem isIdentifierContinue_of_plain {c : Char} (h : c.isAlphanum = true ∨ c = '_') :
    isIdentifierContinue c = true := by
  rcases h with h | rfl
  · rw [isIdentifierContinue, if_pos (isAscii_of_isAlphanum h), h, Bool.true_or]
  · decide

theorem isIdentifierStart_of_plain {c : Char} (h : c.isAlphanum = true ∨ c = '_') :
    isIdentifierStart c = (c.isAlpha || c = '_') := by
  rcases h with h | rfl
  · rw [isIdentifierStart, if_pos (isAscii_of_isAlphanum h)]
  · decide

theorem isIdentifier_spelled (hs : IsPlain s) (hf : IsCasing f)
    (hsep : ∀ c ∈ separator, c = '_') :
    isIdentifier (spelled f separator s) = true ↔ LeadsWithLetter s := by
  have hmem := mem_spelled hs hf hsep
  rw [LeadsWithLetter]
  rcases spelled_cases separator hs hf with
    ⟨hlead, hnil⟩ | ⟨c, d, rest, hlead, hcons, hd, halpha⟩
  · rw [hlead, hnil]
    exact ⟨fun h => (nomatch h), fun h => (nomatch h)⟩
  · have hne : d ≠ '_' := by rintro rfl; exact absurd hd (by decide)
    have hrest : rest.all isIdentifierContinue = true := List.all_eq_true.mpr fun e he =>
      isIdentifierContinue_of_plain (hmem e (hcons ▸ List.mem_cons_of_mem d he))
    rw [hlead, hcons, isIdentifier, hrest, isIdentifierStart_of_plain (Or.inl hd)]
    simp [hne, halpha]

end

theorem isPlain_snakeCase {s : String} (h : IsPlain s) : IsPlain (snakeCase s) := by
  rw [IsPlain, snakeCase, String.toList_ofList]
  exact mem_spelled h isCasing_lowerWord (by simp)

theorem isPlain_shoutyCase {s : String} (h : IsPlain s) : IsPlain (shoutyCase s) := by
  rw [IsPlain, shoutyCase, String.toList_ofList]
  exact mem_spelled h isCasing_upperWord (by simp)

theorem isPlain_upperCamelCase {s : String} (h : IsPlain s) : IsPlain (upperCamelCase s) := by
  rw [IsPlain, upperCamelCase, String.toList_ofList]
  exact mem_spelled h isCasing_capitalWord (by simp)

theorem isIdentifier_snakeCase {s : String} (h : IsPlain s) :
    isIdentifier (snakeCase s).toList = true ↔ LeadsWithLetter s := by
  rw [snakeCase, String.toList_ofList]
  exact isIdentifier_spelled h isCasing_lowerWord (by simp)

theorem isIdentifier_shoutyCase {s : String} (h : IsPlain s) :
    isIdentifier (shoutyCase s).toList = true ↔ LeadsWithLetter s := by
  rw [shoutyCase, String.toList_ofList]
  exact isIdentifier_spelled h isCasing_upperWord (by simp)

theorem isIdentifier_upperCamelCase {s : String} (h : IsPlain s) :
    isIdentifier (upperCamelCase s).toList = true ↔ LeadsWithLetter s := by
  rw [upperCamelCase, String.toList_ofList]
  exact isIdentifier_spelled h isCasing_capitalWord (by simp)

/-! ## Names with something behind -/

/-- What continues an identifier is one with it. -/
theorem isIdentifier_append {s t : String} (hs : isIdentifier s.toList = true) (ht : IsPlain t) :
    isIdentifier (s ++ t).toList = true := by
  rw [String.toList_append]
  cases h : s.toList with
  | nil =>
      rw [h] at hs
      cases hs
  | cons c cs =>
      rw [h, isIdentifier, Bool.and_eq_true] at hs
      rw [List.cons_append, isIdentifier, List.all_append, hs.1, hs.2, List.all_eq_true.mpr
        fun d hd => isIdentifierContinue_of_plain (ht d hd)]
      rfl

/-- No digit comes before the first letter. -/
def NoLeadingDigit (s : String) : Prop := (lead? s).all Char.isAlpha = true

instance (s : String) : Decidable (NoLeadingDigit s) := inferInstanceAs (Decidable (_ = true))

theorem leadsWithLetter_append {s t : String} (ht : LeadsWithLetter t) :
    LeadsWithLetter (s ++ t) ↔ NoLeadingDigit s := by
  rw [LeadsWithLetter, NoLeadingDigit, lead?_append]
  cases lead? s with
  | none => exact iff_of_true ht rfl
  | some c => rfl

/-- A word in camel case starts with its first letter or digit. -/
theorem isIdentifier_upperCamelCase_append {s t : String} (hs : IsPlain s) (ht : IsPlain t)
    (hi : isIdentifier t.toList = true) :
    isIdentifier (upperCamelCase s ++ t).toList = true ↔ NoLeadingDigit s := by
  have hcamel : (upperCamelCase s).toList = spelled capitalWord [] s := String.toList_ofList
  rw [NoLeadingDigit]
  rcases spelled_cases [] hs isCasing_capitalWord with
    ⟨hlead, hnil⟩ | ⟨c, d, rest, hlead, hcons, hd, halpha⟩
  · rw [String.toList_append, hcamel, hnil, hlead]
    exact iff_of_true hi rfl
  · have hplain := (isPlain_upperCamelCase hs).append ht
    rw [IsPlain, String.toList_append, hcamel, hcons] at hplain
    have hne : d ≠ '_' := by rintro rfl; exact absurd hd (by decide)
    have hall : (rest ++ t.toList).all isIdentifierContinue = true :=
      List.all_eq_true.mpr fun e he =>
        isIdentifierContinue_of_plain (hplain e (List.mem_cons_of_mem d he))
    rw [String.toList_append, hcamel, hcons, List.cons_append, isIdentifier, hall,
      isIdentifierStart_of_plain (Or.inl hd), hlead]
    simp [hne, halpha]

theorem noLeadingDigit_upperCamelCase {s : String} (hs : IsPlain s) :
    NoLeadingDigit (upperCamelCase s) ↔ NoLeadingDigit s := by
  have hcamel : (upperCamelCase s).toList = spelled capitalWord [] s := String.toList_ofList
  rw [NoLeadingDigit, NoLeadingDigit, lead?, hcamel]
  rcases spelled_cases [] hs isCasing_capitalWord with
    ⟨hlead, hnil⟩ | ⟨c, d, rest, hlead, hcons, hd, halpha⟩
  · rw [hnil, hlead]
    rfl
  · rw [hcons, hlead, List.find?_cons_of_pos hd]
    simp [halpha]

/-! ## Capitals -/

theorem toUppercase_eq_of_plain {c : Char} (h : c.isAlphanum = true ∨ c = '_') :
    toUppercase c = [c.toUpper] := by
  rcases h with h | rfl
  · exact toUppercase_eq h
  · decide

theorem toUpper_of_plain {c : Char} (h : c.isAlphanum = true ∨ c = '_') :
    (c.toUpper.isAlphanum = true ∨ c.toUpper = '_') ∧
      c.toUpper.isAlphanum = c.isAlphanum ∧ c.toUpper.isAlpha = c.isAlpha := by
  refine ⟨?_, ?_, Char.isAlpha_toUpper_eq_isAlpha c⟩
  · exact h.imp isAlphanum_toUpper (by rintro rfl; decide)
  · rcases h with h | rfl
    · rw [h, isAlphanum_toUpper h]
    · decide

/-- Capitals make no difference to what leads. -/
theorem capitalize_cases {s : String} (h : IsPlain s) :
    s.toList = [] ∧ capitalize s = "" ∨
      ∃ c cs, s.toList = c :: cs ∧ (capitalize s).toList = c.toUpper :: cs := by
  unfold capitalize
  cases hs : s.toList with
  | nil => exact Or.inl ⟨rfl, rfl⟩
  | cons c cs =>
      refine Or.inr ⟨c, cs, rfl, ?_⟩
      have hc := h c (hs ▸ List.mem_cons_self)
      simp [toUppercase_eq_of_plain hc]

theorem isPlain_capitalize {s : String} (h : IsPlain s) : IsPlain (capitalize s) := by
  rcases capitalize_cases h with ⟨_, e⟩ | ⟨c, cs, hs, e⟩
  · rw [e]
    exact fun c hc => nomatch hc
  · rw [IsPlain, hs] at h
    obtain ⟨hc, hcs⟩ := List.forall_mem_cons.mp h
    rw [IsPlain, e]
    exact List.forall_mem_cons.mpr ⟨(toUpper_of_plain hc).1, hcs⟩

theorem map_lead?_capitalize {s : String} (h : IsPlain s) :
    (lead? (capitalize s)).map Char.isAlpha = (lead? s).map Char.isAlpha := by
  rcases capitalize_cases h with ⟨hs, e⟩ | ⟨c, cs, hs, e⟩
  · rw [lead?, lead?, e, hs]
    rfl
  · rw [IsPlain, hs] at h
    obtain ⟨_, halphanum, halpha⟩ := toUpper_of_plain (h c List.mem_cons_self)
    rw [lead?, lead?, e, hs, List.find?_cons, List.find?_cons, halphanum]
    cases c.isAlphanum with
    | true => exact congrArg some halpha
    | false => rfl

theorem leadsWithLetter_capitalize {s : String} (h : IsPlain s) :
    LeadsWithLetter (capitalize s) ↔ LeadsWithLetter s := by
  have hmap := map_lead?_capitalize h
  unfold LeadsWithLetter
  cases h₁ : lead? (capitalize s) <;> cases h₂ : lead? s <;> simp_all

theorem noLeadingDigit_capitalize {s : String} (h : IsPlain s) :
    NoLeadingDigit (capitalize s) ↔ NoLeadingDigit s := by
  have hmap := map_lead?_capitalize h
  unfold NoLeadingDigit
  cases h₁ : lead? (capitalize s) <;> cases h₂ : lead? s <;> simp_all

end Graphwright.Text
