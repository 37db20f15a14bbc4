import Graphwright.Text.Words
import Mathlib

/-!
# Letter case of words

The words of a name are made of its characters. So the spelling in upper case of a name in ASCII has
no lower-case letter. In other scripts, too, no upper-case form holds a lower-case letter of ASCII,
so that no spelling in camel case starts with one.
-/
namespace Graphwright.Text

/-! ## Characters of words -/

theorem mem_of_mem_splitWhere {cut : Char → Bool} {cs piece : List Char}
    (h : piece ∈ splitWhere cut cs) : ∀ c ∈ piece, c ∈ cs := by
  fun_induction splitWhere cut cs generalizing piece with
  | case1 => simp_all
  | case2 d cs _ ih =>
      intro c hc
      rcases List.mem_cons.mp h with rfl | h
      · cases hc
      · exact List.mem_cons_of_mem d (ih h c hc)
  | case3 d cs _ hs => exact absurd hs (splitWhere_ne_nil cut cs)
  | case4 d cs _ first rest hs ih =>
      rw [hs] at ih
      intro c hc
      rcases List.mem_cons.mp h with rfl | h
      · rcases List.mem_cons.mp hc with rfl | hc
        · exact List.mem_cons_self ..
        · exact List.mem_cons_of_mem d (ih (List.mem_cons_self ..) c hc)
      · exact List.mem_cons_of_mem d (ih (List.mem_cons_of_mem first h) c hc)

theorem mem_of_mem_wordsFrom {word : List Char} {mode : WordCase} {cs w : List Char}
    (h : w ∈ wordsFrom word mode cs) : ∀ c ∈ w, c ∈ word ∨ c ∈ cs := by
  fun_induction wordsFrom word mode cs with
  | case1 => cases h
  | case2 => simp_all
  | case3 word mode d => simp_all [or_comm]
  | case4 word mode d next rest _ ih =>
      intro c hc
      rcases List.mem_cons.mp h with rfl | h
      · rcases List.mem_cons.mp (List.mem_reverse.mp hc) with rfl | hc
        · exact Or.inr (List.mem_cons_self ..)
        · exact Or.inl hc
      · exact Or.inr (List.mem_cons_of_mem d ((ih h c hc).resolve_left List.not_mem_nil))
  | case5 word mode d next rest _ _ ih =>
      intro c hc
      rcases List.mem_cons.mp h with rfl | h
      · exact Or.inl (List.mem_reverse.mp hc)
      · exact Or.inr (by simpa using ih h c hc)
  | case6 word mode d next rest _ _ ih =>
      intro c hc
      rcases ih h c hc with hword | hrest
      · rcases List.mem_cons.mp hword with rfl | hword
        · exact Or.inr (List.mem_cons_self ..)
        · exact Or.inl hword
      · exact Or.inr (List.mem_cons_of_mem d hrest)

theorem mem_of_mem_words {cs w : List Char} (h : w ∈ words cs) : ∀ c ∈ w, c ∈ cs := by
  obtain ⟨piece, hpiece, hw⟩ := List.mem_flatMap.mp h
  intro c hc
  exact mem_of_mem_splitWhere hpiece c
    ((mem_of_mem_wordsFrom hw c hc).resolve_left List.not_mem_nil)

theorem mem_joinWords {separator : List Char} {ws : List (List Char)} {c : Char}
    (h : c ∈ joinWords separator ws) : c ∈ separator ∨ ∃ w ∈ ws, c ∈ w := by
  obtain ⟨part, hpart, hc⟩ := List.mem_flatten.mp h
  clear h
  fun_induction List.intersperse separator ws with
  | case1 => cases hpart
  | case2 => exact Or.inr ⟨part, hpart, hc⟩
  | case3 w ws _ ih =>
      rcases List.mem_cons.mp hpart with rfl | hpart
      · exact Or.inr ⟨part, List.mem_cons_self .., hc⟩
      · rcases List.mem_cons.mp hpart with rfl | hpart
        · exact Or.inl hc
        · exact (ih hpart).imp_right fun ⟨v, hv, hc⟩ => ⟨v, List.mem_cons_of_mem w hv, hc⟩

/-! ## Upper case -/

/-- The spelling in upper case of an ASCII name has no lower-case letter. -/
theorem not_isLower_of_mem_shoutyCase {name : String}
    (ha : ∀ c ∈ name.toList, isAscii c = true) :
    ∀ c ∈ (shoutyCase name).toList, c.isLower = false := by
  intro c hc
  rw [shoutyCase, String.toList_ofList] at hc
  rcases mem_joinWords hc with hc | ⟨w, hw, hc⟩
  · rw [List.mem_singleton.mp hc]
    rfl
  · obtain ⟨word, hword, rfl⟩ := List.mem_map.mp hw
    obtain ⟨d, hd, hc⟩ := List.mem_flatMap.mp hc
    rw [toUppercase, if_pos (ha d (mem_of_mem_words hword d hd)), List.mem_singleton] at hc
    rw [hc, Char.isLower_toUpper_eq_false]

/-! ## Capitals -/

theorem isAscii_of_isAlphanum {c : Char} (h : c.isAlphanum = true) : isAscii c = true := by
  simp only [Char.isAlphanum, Char.isAlpha, Char.isUpper, Char.isLower, Char.isDigit,
    Bool.or_eq_true, Bool.and_eq_true, decide_eq_true_eq, UInt32.le_iff_toNat_le,
    Char.toNat_val] at h
  rw [isAscii, decide_eq_true_eq]
  rcases h with (h | h) | h <;> exact Nat.lt_of_le_of_lt h.2 (by decide)

/-- The text does not start with a lower-case letter. -/
def IsCapital (s : String) : Prop := s.toList.head?.all (!·.isLower) = true

instance (s : String) : Decidable (IsCapital s) := inferInstanceAs (Decidable (_ = true))

theorem IsCapital.append {s t : String} (hs : IsCapital s) (ht : IsCapital t) :
    IsCapital (s ++ t) := by
  unfold IsCapital at *
  rw [String.toList_append]
  cases h : s.toList with
  | nil => exact ht
  | cons c cs =>
      rw [h] at hs
      exact hs

theorem isCapital_capitalize {s : String} (ha : ∀ c ∈ s.toList, isAscii c = true) :
    IsCapital (capitalize s) := by
  unfold IsCapital capitalize
  split
  · rfl
  · rename_i c cs h
    have hc : isAscii c = true := ha c (h ▸ List.mem_cons_self ..)
    simp [toUppercase, hc, Char.isLower_toUpper_eq_false]

/-! ## Upper case in other scripts -/

theorem isLower_iff {c : Char} : c.isLower = true ↔ 97 ≤ c.toNat ∧ c.toNat ≤ 122 := by
  simp [Char.isLower, UInt32.le_iff_toNat_le, ← Char.toNat_val]

/-- What the shift leads to lies outside the lower-case letters of ASCII. -/
def Shift.isCapital (s : Shift) : Bool := s.target + (s.hi - s.lo) < 97 || 122 < s.target

theorem Shift.not_isLower_of_image? {s : Shift} (hs : s.isCapital = true) {c d : Char}
    (h : s.image? c = some d) : d.isLower = false := by
  unfold image? at h
  split at h
  · rename_i hc
    cases h
    simp only [isCapital, Bool.or_eq_true, decide_eq_true_eq] at hs
    rw [← Bool.not_eq_true, isLower_iff, Char.toNat_ofNat]
    split <;> omega
  · cases h

/-- Nothing that the map changes leads to a text with a lower-case letter of ASCII, or to none. -/
def CharMap.isCapital (m : CharMap) : Bool :=
  m.shifts.all (·.isCapital) && m.several.all fun (_, cs) => cs ≠ [] && cs.all (!·.isLower)

theorem CharMap.exists_apply {m : CharMap} (hm : m.isCapital = true) {c : Char}
    (hc : c.isLower = false) :
    ∃ d ds, m.apply c = d :: ds ∧ ∀ e ∈ d :: ds, e.isLower = false := by
  obtain ⟨hshifts, hseveral⟩ := Bool.and_eq_true_iff.mp hm
  unfold apply
  split
  · rename_i cs hlookup
    obtain ⟨before, after, hsplit, _⟩ := List.lookup_eq_some_iff.mp hlookup
    have hcs := List.all_eq_true.mp hseveral (c, cs) (by simp [hsplit])
    cases cs with
    | nil => cases hcs
    | cons d ds => exact ⟨d, ds, rfl, by simpa using hcs⟩
  · split
    · rename_i d himage
      obtain ⟨s, hs, hd⟩ := List.exists_of_findSome?_eq_some himage
      exact ⟨d, [], rfl, List.forall_mem_singleton.mpr
        (s.not_isLower_of_image? (List.all_eq_true.mp hshifts s hs) hd)⟩
    · exact ⟨c, [], rfl, List.forall_mem_singleton.mpr hc⟩

/-- Tables are read off the characters of their texts. -/
theorem tableWords_ofList (cs : List Char) : tableWords (String.ofList cs) =
    (splitWhere (fun c => c = ' ' || c = '\n') cs).filter (· ≠ []) := by
  rw [tableWords, String.toList_ofList]

theorem CharMap.isCapital_ofTables (shifts several : List Char)
    (h : (((splitWhere (fun c => c = ' ' || c = '\n') shifts).filter (· ≠ [])).all
        fun word => (Shift.ofWord word).isCapital) = true)
    (h' : (((splitWhere (fun c => c = ' ' || c = '\n') several).filter (· ≠ [])).all fun word =>
        let cs := splitWhere (· = '.') ((splitFirst? ':' word).getD (word, [])).2
        cs ≠ [] && cs.all fun d => !(Char.ofNat (hexValue d)).isLower) = true) :
    (ofTables (String.ofList shifts) (String.ofList several)).isCapital = true := by
  simp only [isCapital, ofTables, tableWords_ofList, List.all_map, Function.comp_def, ne_eq,
    List.map_eq_nil_iff]
  rw [h, Bool.true_and]
  exact h'

set_option maxRecDepth 10000 in
theorem isCapital_toUpperTable : toUpperTable.isCapital = true :=
  CharMap.isCapital_ofTables _ _ (by decide +kernel) (by decide +kernel)

theorem exists_toUppercase (c : Char) :
    ∃ d ds, toUppercase c = d :: ds ∧ ∀ e ∈ d :: ds, e.isLower = false := by
  unfold toUppercase
  split
  · exact ⟨c.toUpper, [], rfl, List.forall_mem_singleton.mpr (Char.isLower_toUpper_eq_false c)⟩
  · rename_i hascii
    refine CharMap.exists_apply isCapital_toUpperTable ?_
    rw [isAscii, decide_eq_true_eq] at hascii
    rw [← Bool.not_eq_true, isLower_iff]
    omega

theorem not_isLower_of_capitalize {s : String} {c : Char} {cs : List Char}
    (h : (capitalize s).toList = c :: cs) : c.isLower = false := by
  unfold capitalize at h
  split at h
  · cases h
  · rename_i first rest _
    obtain ⟨d, ds, happly, hd⟩ := exists_toUppercase first
    rw [String.toList_ofList, happly] at h
    cases h
    exact hd c List.mem_cons_self

/-- No spelling in upper case has a lower-case letter of ASCII. -/
theorem not_isLower_shoutyCase (s : String) : ∀ c ∈ (shoutyCase s).toList, c.isLower = false := by
  intro c hc
  rw [shoutyCase, String.toList_ofList] at hc
  rcases mem_joinWords hc with hc | ⟨w, hw, hc⟩
  · rw [List.mem_singleton.mp hc]
    rfl
  · obtain ⟨word, _, rfl⟩ := List.mem_map.mp hw
    obtain ⟨d, _, hc⟩ := List.mem_flatMap.mp hc
    obtain ⟨e, es, happly, hupper⟩ := exists_toUppercase d
    exact hupper c (happly ▸ hc)

/-- No spelling in camel case starts with one. -/
theorem isCapital_upperCamelCase (s : String) : IsCapital (upperCamelCase s) := by
  rw [IsCapital, upperCamelCase, String.toList_ofList]
  cases hw : words s.toList with
  | nil => rfl
  | cons w ws =>
      have hmem : w ∈ words s.toList := hw ▸ List.mem_cons_self
      obtain ⟨c, cs, rfl⟩ := List.exists_cons_of_ne_nil (ne_nil_of_mem_words hmem)
      obtain ⟨d, ds, happly, hupper⟩ := exists_toUppercase c
      have hd := hupper d List.mem_cons_self
      cases ws <;> simp [joinWords, List.intercalate, capitalWord, happly, hd]

end Graphwright.Text
