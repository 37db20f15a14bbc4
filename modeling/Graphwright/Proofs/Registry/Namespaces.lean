import Graphwright.Proofs.Text.Identifiers
import Graphwright.Registry.Namespace

/-!
# Paths in a namespace

A namespace is a path of words, so the paths of its items consist of letters, digits, underscores
and colons, and start with the first word of the namespace.
-/
namespace Graphwright

/-! ## Segments -/

theorem mem_pathSegments {cs : List Char} {c : Char} (hc : c ∈ cs) :
    c = ':' ∨ ∃ segment ∈ pathSegments cs, c ∈ segment := by
  fun_induction pathSegments cs with
  | case1 => cases hc
  | case2 cs ih =>
      rcases List.mem_cons.mp hc with rfl | hc
      · exact Or.inl rfl
      rcases List.mem_cons.mp hc with rfl | hc
      · exact Or.inl rfl
      obtain hcolon | ⟨segment, hs, hc⟩ := ih hc
      · exact Or.inl hcolon
      · exact Or.inr ⟨segment, List.mem_cons_of_mem _ hs, hc⟩
  | case3 d cs _ hnil ih =>
      rcases List.mem_cons.mp hc with rfl | hc
      · exact Or.inr ⟨_, List.mem_cons_self, List.mem_cons_self⟩
      obtain hcolon | ⟨segment, hs, hc⟩ := ih hc
      · exact Or.inl hcolon
      · rw [hnil] at hs
        cases hs
  | case4 d cs _ first rest hcons ih =>
      rcases List.mem_cons.mp hc with rfl | hc
      · exact Or.inr ⟨_, List.mem_cons_self, List.mem_cons_self⟩
      obtain hcolon | ⟨segment, hs, hc⟩ := ih hc
      · exact Or.inl hcolon
      · rw [hcons] at hs
        rcases List.mem_cons.mp hs with rfl | hs
        · exact Or.inr ⟨_, List.mem_cons_self, List.mem_cons_of_mem d hc⟩
        · exact Or.inr ⟨segment, List.mem_cons_of_mem _ hs, hc⟩

theorem pathSegments_ne_nil (cs : List Char) : pathSegments cs ≠ [] := by
  fun_cases pathSegments cs <;> simp

/-- The first segment is all up to the first colon if it is a word. -/
theorem takeWhile_of_pathSegments {cs segment : List Char} {rest : List (List Char)}
    (h : pathSegments cs = segment :: rest) (hplain : ∀ c ∈ segment, c.isAlphanum = true ∨ c = '_') :
    cs.takeWhile Text.isIdentifierContinue = segment := by
  fun_induction pathSegments cs generalizing segment rest with
  | case1 => cases h; rfl
  | case2 cs _ => cases h; rfl
  | case3 c cs _ hnil ih => exact absurd hnil (pathSegments_ne_nil cs)
  | case4 c cs _ first others hcons ih =>
      cases h
      obtain ⟨hc, hfirst⟩ := List.forall_mem_cons.mp hplain
      rw [List.takeWhile_cons_of_pos (Text.isIdentifierContinue_of_plain hc), ih hcons hfirst]

theorem forall_mem_of_isPlainIdentifier {segment : List Char}
    (h : isPlainIdentifier segment = true) : ∀ c ∈ segment, c.isAlphanum = true ∨ c = '_' := by
  cases segment with
  | nil => exact List.forall_mem_nil _
  | cons d ds =>
      simp only [isPlainIdentifier, Bool.and_eq_true, List.all_eq_true, Bool.or_eq_true,
        decide_eq_true_eq] at h
      exact List.forall_mem_cons.mpr
        ⟨h.1.1.imp_left fun hd => by rw [Char.isAlphanum, hd, Bool.true_or], h.1.2⟩

namespace Namespace

variable (home : Namespace)

theorem isPlainIdentifier_of_mem {segment : List Char}
    (h : segment ∈ pathSegments home.root.toList) : isPlainIdentifier segment = true := by
  obtain ⟨i, hi⟩ := List.mem_iff_getElem?.mp h
  have hvalid : isNamespaceSegment i segment = true :=
    List.all_eq_true.mp home.valid (segment, i) (List.mem_zipIdx_iff_getElem?.mpr hi)
  exact (Bool.and_eq_true_iff.mp hvalid).1

theorem isPlain_lastSegment : Text.IsPlain (lastSegment home.root) := by
  rw [Text.IsPlain, lastSegment, String.toList_ofList, List.getLastD_eq_getLast?]
  cases hlast : (pathSegments home.root.toList).getLast? with
  | none => exact List.forall_mem_nil _
  | some segment =>
      exact forall_mem_of_isPlainIdentifier
        (home.isPlainIdentifier_of_mem (List.mem_of_getLast? hlast))

/-! ## Paths of items -/

theorem toList_typePath (name : String) : (home.typePath name).toList = home.root.toList ++
    ':' :: ':' :: ("types".toList ++ ':' :: ':' :: (Text.capitalize name).toList) := by
  simp [typePath, joinPath]

theorem toList_selectionPath (name : String) : (home.selectionPath name).toList =
    home.root.toList ++ ':' :: ':' :: ((Text.capitalize name).toList ++ "FieldSelection".toList) := by
  simp [selectionPath, joinPath]

/-- What follows the root starts with a capital in one path and with a small letter in the other. -/
theorem selectionPath_ne_typePath (name typeName : String) :
    home.selectionPath name ≠ home.typePath typeName := by
  intro h
  have htail : (Text.capitalize name).toList ++ "FieldSelection".toList =
      't' :: ("ypes".toList ++ ':' :: ':' :: (Text.capitalize typeName).toList) := by
    have hlist := congrArg String.toList h
    rw [toList_selectionPath, toList_typePath] at hlist
    simpa using hlist
  cases hname : (Text.capitalize name).toList with
  | nil =>
      rw [hname] at htail
      exact absurd (List.cons.inj htail).1 (by decide)
  | cons c cs =>
      have hc := Text.not_isLower_of_capitalize hname
      rw [hname, List.cons_append] at htail
      rw [(List.cons.inj htail).1] at hc
      exact absurd hc (by decide)

theorem mem_typePath {name : String} (hname : Text.IsPlain name) :
    ∀ c ∈ (home.typePath name).toList, (c.isAlphanum = true ∨ c = '_') ∨ c = ':' := by
  have hfolder : Text.IsPlain "types" := by simp [Text.IsPlain]
  intro c hc
  rw [toList_typePath] at hc
  simp only [List.mem_append, List.mem_cons] at hc
  rcases hc with hc | hc | hc | hc | hc | hc | hc
  · rcases mem_pathSegments hc with hc | ⟨segment, hs, hc⟩
    · exact Or.inr hc
    · exact Or.inl (forall_mem_of_isPlainIdentifier (home.isPlainIdentifier_of_mem hs) c hc)
  · exact Or.inr hc
  · exact Or.inr hc
  · exact Or.inl (hfolder c hc)
  · exact Or.inr hc
  · exact Or.inr hc
  · exact Or.inl (Text.isPlain_capitalize hname c hc)

/-- What the path of an item starts with. -/
theorem takeWhile_typePath (name : String) : ∃ first, home.segments.head? = some first ∧
    isPlainIdentifier first.toList = true ∧
    (home.typePath name).toList.takeWhile Text.isIdentifierContinue = first.toList := by
  obtain ⟨segment, rest, hsegments⟩ :=
    List.exists_cons_of_ne_nil (pathSegments_ne_nil home.root.toList)
  have hword : isPlainIdentifier segment = true :=
    home.isPlainIdentifier_of_mem (hsegments ▸ List.mem_cons_self)
  have hroot := takeWhile_of_pathSegments hsegments (forall_mem_of_isPlainIdentifier hword)
  have hfirst : (String.ofList segment).toList = segment := String.toList_ofList
  refine ⟨String.ofList segment, by rw [segments, hsegments]; rfl, by rwa [hfirst], ?_⟩
  rw [toList_typePath, hfirst, List.takeWhile_append, hroot, List.takeWhile_cons_of_neg (by decide)]
  split
  · rename_i hlength
    rw [List.append_nil, ← hroot]
    exact ((List.takeWhile_prefix _).eq_of_length (by rw [hroot]; exact hlength)).symm
  · rfl

end Namespace

end Graphwright
