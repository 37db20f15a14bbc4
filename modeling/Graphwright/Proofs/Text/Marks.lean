import Graphwright.Proofs.Text.Identifiers

/-!
# Marks in the spellings of names

The words of a name are put together of its letters and digits, and no change of case makes anything
else of them. So spellings hold no mark but the underscores between words, and the one in snake case
does not end in one. This holds in all scripts.
-/
namespace Graphwright.Text

/-- A mark that means something in an identifier: the one between words, and the one behind the `r`
of a raw identifier. -/
def isMark (c : Char) : Bool := c = '_' || c = '#'

theorem isMark_iff {c : Char} : isMark c = true ↔ c.toNat = 95 ∨ c.toNat = 35 := by
  simp only [isMark, Bool.or_eq_true, decide_eq_true_eq, ← Char.toNat_inj]
  rfl

theorem isMark_of_isAlphanumeric {c : Char} (h : isAlphanumeric c = true) : isMark c = false := by
  rw [← Bool.not_eq_true]
  intro hm
  have hc : c = '_' ∨ c = '#' := by simpa [isMark] using hm
  rcases hc with rfl | rfl <;> exact absurd h (by decide)

/-- Some text without a mark. -/
structure IsUnmarked (cs : List Char) : Prop where
  ne_nil : cs ≠ []
  isMark : ∀ c ∈ cs, isMark c = false

theorem IsUnmarked.append {cs ds : List Char} (h : IsUnmarked cs)
    (hd : ∀ d ∈ ds, Text.isMark d = false) : IsUnmarked (cs ++ ds) :=
  ⟨List.append_ne_nil_of_left_ne_nil h.ne_nil ds, List.forall_mem_append.mpr ⟨h.isMark, hd⟩⟩

theorem isUnmarked_singleton {c : Char} (h : isMark c = false) : IsUnmarked [c] :=
  ⟨List.cons_ne_nil c [], by simpa using h⟩

/-! ## Change of case -/

/-- What the shift leads to holds no mark. -/
def Shift.isUnmarked (s : Shift) : Bool :=
  [95, 35].all fun n => n < s.target || s.target + (s.hi - s.lo) < n

theorem Shift.isMark_of_image? {s : Shift} (hs : s.isUnmarked = true) {c d : Char}
    (h : s.image? c = some d) : isMark d = false := by
  unfold image? at h
  split at h
  · rename_i hc
    cases h
    simp only [isUnmarked, List.all_cons, List.all_nil, Bool.and_true, Bool.and_eq_true,
      Bool.or_eq_true, decide_eq_true_eq] at hs
    rw [← Bool.not_eq_true, isMark_iff, Char.toNat_ofNat]
    split <;> omega
  · cases h

/-- The map leads to texts without marks, and to no empty one. -/
def CharMap.isUnmarked (m : CharMap) : Bool :=
  m.shifts.all (·.isUnmarked) && m.several.all fun (_, cs) => !cs.isEmpty && cs.all (!isMark ·)

theorem CharMap.isUnmarked_apply {m : CharMap} (hm : m.isUnmarked = true) {c : Char}
    (hc : isMark c = false) : IsUnmarked (m.apply c) := by
  obtain ⟨hshifts, hseveral⟩ := Bool.and_eq_true_iff.mp hm
  unfold apply
  split
  · rename_i cs hlookup
    obtain ⟨before, after, hsplit, _⟩ := List.lookup_eq_some_iff.mp hlookup
    have hcs := List.all_eq_true.mp hseveral (c, cs) (by simp [hsplit])
    obtain ⟨hne, hmark⟩ := Bool.and_eq_true_iff.mp hcs
    exact ⟨by simpa using hne, by simpa using hmark⟩
  · split
    · rename_i d himage
      obtain ⟨s, hs, hd⟩ := List.exists_of_findSome?_eq_some himage
      exact isUnmarked_singleton (s.isMark_of_image? (List.all_eq_true.mp hshifts s hs) hd)
    · exact isUnmarked_singleton hc

theorem CharMap.isUnmarked_ofTables (shifts several : List Char)
    (h : CharMap.isUnmarked
      { shifts := ((splitWhere (fun c => c = ' ' || c = '\n') shifts).filter (· ≠ [])).map Shift.ofWord
        several := ((splitWhere (fun c => c = ' ' || c = '\n') several).filter (· ≠ [])).map
          fun word =>
            let (c, cs) := (splitFirst? ':' word).getD (word, [])
            (Char.ofNat (hexValue c), (splitWhere (· = '.') cs).map fun d => Char.ofNat (hexValue d)) }
      = true) : (ofTables (String.ofList shifts) (String.ofList several)).isUnmarked = true := by
  rw [ofTables, tableWords_ofList, tableWords_ofList]
  exact h

set_option maxRecDepth 10000 in
theorem isUnmarked_toLowerTable : toLowerTable.isUnmarked = true :=
  CharMap.isUnmarked_ofTables _ _ (by decide +kernel)

set_option maxRecDepth 10000 in
theorem isUnmarked_toUpperTable : toUpperTable.isUnmarked = true :=
  CharMap.isUnmarked_ofTables _ _ (by decide +kernel)

theorem isUnmarked_toLowercase {c : Char} (h : isAlphanumeric c = true) :
    IsUnmarked (toLowercase c) := by
  unfold toLowercase
  split
  · rename_i hascii
    rw [isAlphanumeric, if_pos hascii] at h
    have hlower := isAlphanum_toLower h
    refine isUnmarked_singleton (isMark_of_isAlphanumeric ?_)
    rwa [isAlphanumeric, if_pos (isAscii_of_isAlphanum hlower)]
  · exact CharMap.isUnmarked_apply isUnmarked_toLowerTable (isMark_of_isAlphanumeric h)

theorem isUnmarked_toUppercase {c : Char} (h : isAlphanumeric c = true) :
    IsUnmarked (toUppercase c) := by
  unfold toUppercase
  split
  · rename_i hascii
    rw [isAlphanumeric, if_pos hascii] at h
    have hupper := isAlphanum_toUpper h
    refine isUnmarked_singleton (isMark_of_isAlphanumeric ?_)
    rwa [isAlphanumeric, if_pos (isAscii_of_isAlphanum hupper)]
  · exact CharMap.isUnmarked_apply isUnmarked_toUpperTable (isMark_of_isAlphanumeric h)

/-! ## Words -/

theorem isAlphanumeric_of_mem_words {cs w : List Char} (h : w ∈ words cs) :
    ∀ c ∈ w, isAlphanumeric c = true := by
  obtain ⟨piece, hpiece, hw⟩ := List.mem_flatMap.mp h
  intro c hc
  have hmem := (mem_of_mem_wordsFrom hw c hc).resolve_left List.not_mem_nil
  simpa using not_cut_of_mem_splitWhere hpiece c hmem

theorem isMark_of_mem_lowerWord {w : List Char} (h : ∀ c ∈ w, isAlphanumeric c = true) :
    ∀ d ∈ lowerWord w, isMark d = false := by
  fun_induction lowerWord w with
  | case1 => simp
  | case2 => simp [isMark]
  | case3 c => exact (isUnmarked_toLowercase (h c List.mem_cons_self)).isMark
  | case4 c cs _ ih =>
      exact List.forall_mem_append.mpr ⟨(isUnmarked_toLowercase (h c List.mem_cons_self)).isMark,
        ih fun d hd => h d (List.mem_cons_of_mem c hd)⟩

/-- A way to spell words by which they get no mark and do not vanish. -/
def KeepsUnmarked (f : List Char → List Char) : Prop :=
  ∀ w ≠ [], (∀ c ∈ w, isAlphanumeric c = true) → IsUnmarked (f w)

theorem keepsUnmarked_lowerWord : KeepsUnmarked lowerWord := by
  intro w hne h
  refine ⟨?_, isMark_of_mem_lowerWord h⟩
  fun_induction lowerWord w with
  | case1 => exact absurd rfl hne
  | case2 => simp
  | case3 c => exact (isUnmarked_toLowercase (h c List.mem_cons_self)).ne_nil
  | case4 c cs _ ih =>
      exact List.append_ne_nil_of_left_ne_nil
        (isUnmarked_toLowercase (h c List.mem_cons_self)).ne_nil _

theorem keepsUnmarked_capitalWord : KeepsUnmarked capitalWord := by
  intro w hne h
  obtain ⟨c, cs, rfl⟩ := List.exists_cons_of_ne_nil hne
  obtain ⟨hc, hcs⟩ := List.forall_mem_cons.mp h
  exact (isUnmarked_toUppercase hc).append (isMark_of_mem_lowerWord hcs)

theorem keepsUnmarked_upperWord : KeepsUnmarked upperWord := by
  intro w hne h
  obtain ⟨c, cs, rfl⟩ := List.exists_cons_of_ne_nil hne
  obtain ⟨hc, hcs⟩ := List.forall_mem_cons.mp h
  rw [upperWord, List.flatMap_cons]
  refine (isUnmarked_toUppercase hc).append fun d hd => ?_
  obtain ⟨e, he, hd⟩ := List.mem_flatMap.mp hd
  exact (isUnmarked_toUppercase (hcs e he)).isMark d hd

theorem isUnmarked_of_mem_map {f : List Char → List Char} (hf : KeepsUnmarked f) {cs w : List Char}
    (h : w ∈ (words cs).map f) : IsUnmarked w := by
  obtain ⟨v, hv, rfl⟩ := List.mem_map.mp h
  exact hf v (ne_nil_of_mem_words hv) (isAlphanumeric_of_mem_words hv)

/-! ## Spellings -/

/-- Joined words end with a word. -/
theorem exists_joinWords_eq_append (separator : List Char) {ws : List (List Char)} (h : ws ≠ []) :
    ∃ front, ∃ w ∈ ws, joinWords separator ws = front ++ w := by
  induction ws with
  | nil => exact absurd rfl h
  | cons w ws ih =>
      cases ws with
      | nil => exact ⟨[], w, List.mem_cons_self, List.intercalate_singleton⟩
      | cons w' ws =>
          obtain ⟨front, last, hlast, heq⟩ := ih (List.cons_ne_nil w' ws)
          refine ⟨w ++ separator ++ front, last, List.mem_cons_of_mem w hlast, ?_⟩
          rw [joinWords, List.intercalate_cons_cons, ← joinWords, heq, List.append_assoc _ front]

theorem not_mem_joinWords {f : List Char → List Char} (hf : KeepsUnmarked f) {separator cs : List Char}
    (hs : '#' ∉ separator) : '#' ∉ joinWords separator ((words cs).map f) := by
  intro h
  rcases mem_joinWords h with h | ⟨w, hw, h⟩
  · exact hs h
  · exact absurd ((isUnmarked_of_mem_map hf hw).isMark '#' h) (by decide)

/-- No spelling holds a number sign. -/
theorem not_mem_snakeCase (s : String) : '#' ∉ (snakeCase s).toList := by
  rw [snakeCase, String.toList_ofList]
  exact not_mem_joinWords keepsUnmarked_lowerWord (by decide)

theorem not_mem_shoutyCase (s : String) : '#' ∉ (shoutyCase s).toList := by
  rw [shoutyCase, String.toList_ofList]
  exact not_mem_joinWords keepsUnmarked_upperWord (by decide)

theorem not_mem_upperCamelCase (s : String) : '#' ∉ (upperCamelCase s).toList := by
  rw [upperCamelCase, String.toList_ofList]
  exact not_mem_joinWords keepsUnmarked_capitalWord (by decide)

/-- No spelling in snake case ends in an underscore. -/
theorem getLast?_snakeCase (s : String) : (snakeCase s).toList.getLast? ≠ some '_' := by
  rw [snakeCase, String.toList_ofList]
  intro h
  by_cases hws : (words s.toList).map lowerWord = []
  · rw [hws] at h
    cases h
  · obtain ⟨front, w, hw, heq⟩ := exists_joinWords_eq_append ['_'] hws
    have hunmarked := isUnmarked_of_mem_map keepsUnmarked_lowerWord hw
    rw [heq, List.getLast?_append_of_ne_nil _ hunmarked.ne_nil] at h
    exact absurd (hunmarked.isMark '_' (List.mem_of_getLast? h)) (by decide)

end Graphwright.Text
