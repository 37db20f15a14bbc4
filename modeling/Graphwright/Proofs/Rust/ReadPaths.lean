import Graphwright.Proofs.Registry.Namespaces
import Graphwright.Proofs.Rust.Imports
import Graphwright.Proofs.Rust.PlainPaths
import Graphwright.Proofs.Text.ReadBack

/-!
# Paths of words are read back

A path is written as its segments between double colons. Segments of words are found again in its
text, and they form a path exactly if each may stand behind the colons of one. The text is also read
as a type then, unless it starts with the one keyword that may stand in a path but starts no type.
-/
namespace Graphwright

/-! ## Segments -/

/-- A segment is what stands in front of the first colons. -/
theorem pathSegments_append {segment : List Char} (h : ':' ∉ segment) (rest : List Char) :
    pathSegments (segment ++ ':' :: ':' :: rest) = segment :: pathSegments rest := by
  induction segment with
  | nil => rw [List.nil_append, pathSegments]
  | cons c cs ih =>
      rw [List.cons_append, pathSegments, ih (List.not_mem_of_not_mem_cons h)]
      exact fun _ e _ => List.ne_of_not_mem_cons h e.symm

theorem pathSegments_of_not_mem {segment : List Char} (h : ':' ∉ segment) :
    pathSegments segment = [segment] := by
  induction segment with
  | nil => rfl
  | cons c cs ih =>
      rw [pathSegments, ih (List.not_mem_of_not_mem_cons h)]
      exact fun _ e _ => List.ne_of_not_mem_cons h e.symm

theorem joinPath_cons_cons (first second : String) (rest : List String) :
    (joinPath (first :: second :: rest)).toList =
      first.toList ++ ':' :: ':' :: (joinPath (second :: rest)).toList := by
  simp [joinPath, String.intercalate_cons_cons]

theorem joinPath_singleton (segment : String) : joinPath [segment] = segment := by
  simp [joinPath]

theorem joinPath_append {front back : List String} (hfront : front ≠ []) (hback : back ≠ []) :
    (joinPath (front ++ back)).toList =
      (joinPath front).toList ++ ':' :: ':' :: (joinPath back).toList := by
  induction front with
  | nil => exact absurd rfl hfront
  | cons first rest ih =>
      cases rest with
      | nil =>
          obtain ⟨next, others, rfl⟩ := List.exists_cons_of_ne_nil hback
          rw [List.singleton_append, joinPath_cons_cons, joinPath_singleton]
      | cons second rest =>
          rw [List.cons_append, List.cons_append, joinPath_cons_cons, ← List.cons_append,
            ih (List.cons_ne_nil _ _), joinPath_cons_cons]
          simp

/-- What has been joined is taken apart again. -/
theorem pathSegments_joinPath {segments : List String} (hne : segments ≠ [])
    (h : ∀ s ∈ segments, ':' ∉ s.toList) :
    pathSegments (joinPath segments).toList = segments.map String.toList := by
  induction segments with
  | nil => exact absurd rfl hne
  | cons first rest ih =>
      obtain ⟨hfirst, hrest⟩ := List.forall_mem_cons.mp h
      cases rest with
      | nil => rw [joinPath_singleton, pathSegments_of_not_mem hfirst]; rfl
      | cons second rest =>
          rw [joinPath_cons_cons, pathSegments_append hfirst, ih (List.cons_ne_nil _ _) hrest]
          rfl

/-- What has been taken apart is joined again. -/
theorem joinPath_pathSegments (cs : List Char) :
    (joinPath ((pathSegments cs).map String.ofList)).toList = cs := by
  fun_induction pathSegments cs with
  | case1 => rfl
  | case2 cs ih =>
      obtain ⟨first, rest, hsegments⟩ := List.exists_cons_of_ne_nil (pathSegments_ne_nil cs)
      rw [hsegments] at ih ⊢
      rw [List.map_cons, List.map_cons, joinPath_cons_cons, ← List.map_cons, ih]
      rfl
  | case3 c cs _ hnil ih => exact absurd hnil (pathSegments_ne_nil cs)
  | case4 c cs _ first rest hcons ih =>
      rw [hcons] at ih
      cases rest with
      | nil => 
          rw [List.map_singleton, joinPath_singleton, String.toList_ofList] at ih ⊢
          rw [ih]
      | cons second rest =>
          rw [List.map_cons, List.map_cons, joinPath_cons_cons, String.toList_ofList] at ih ⊢
          rw [List.cons_append, ih]

namespace Rust

/-! ## Paths -/

theorem pieces_eq_pathSegments (cs : List Char) : plainSegments?.pieces cs = pathSegments cs := by
  fun_induction pathSegments cs with
  | case1 => rfl
  | case2 cs ih => rw [plainSegments?.pieces, ih]
  | case3 c cs hcolons hnil ih => exact absurd hnil (pathSegments_ne_nil cs)
  | case4 c cs hcolons first rest hcons ih =>
      rw [plainSegments?.pieces, ih, hcons]
      exact hcolons

theorem not_mem_of_isPlain {segment : String} (h : plainSegments?.isPlain segment = true) :
    ':' ∉ segment.toList := by
  intro hmem
  have hcolon := List.all_eq_true.mp (Bool.and_eq_true_iff.mp h).2 ':' hmem
  exact absurd hcolon (by decide)

theorem plainSegments?_joinPath {segments : List String} (hmany : 1 < segments.length)
    (h : ∀ s ∈ segments, plainSegments?.isPlain s = true) :
    plainSegments? (joinPath segments) = some segments := by
  have hne : segments ≠ [] := List.ne_nil_of_length_pos (Nat.lt_of_succ_lt hmany)
  have hread : (plainSegments?.pieces (joinPath segments).toList).map String.ofList = segments := by
    rw [pieces_eq_pathSegments, pathSegments_joinPath hne fun s hs => not_mem_of_isPlain (h s hs),
      List.map_map]
    simp [Function.comp_def]
  unfold plainSegments?
  rw [hread, if_pos ⟨hmany, List.all_eq_true.mpr h⟩]

/-- Segments of words form a path exactly if each is one of a path. -/
theorem isSome_path?_joinPath {segments : List String} (hmany : 1 < segments.length)
    (h : ∀ s ∈ segments, plainSegments?.isPlain s = true) :
    (path? (joinPath segments)).isSome = true ↔ ∀ s ∈ segments, (pathSegment? s).isSome = true := by
  rw [path?, plainSegments?_joinPath hmany h]
  change (segments.mapM pathSegment?).isSome = true ↔ _
  clear hmany h
  induction segments with
  | nil => simp
  | cons s segments ih =>
      rw [List.mapM_cons, List.forall_mem_cons, ← ih]
      cases pathSegment? s <;> cases segments.mapM pathSegment? <;> simp

theorem isPlain_of_isPlainIdentifier {segment : String}
    (h : isPlainIdentifier segment.toList = true) : plainSegments?.isPlain segment = true := by
  refine Bool.and_eq_true_iff.mpr ⟨decide_eq_true ?_, List.all_eq_true.mpr fun c hc => ?_⟩
  · rintro rfl
    cases h
  · simpa using forall_mem_of_isPlainIdentifier h c hc

/-- A word is a segment of a path unless it is a keyword that cannot stand in one. -/
theorem isSome_pathSegment? {segment : String} (h : isPlainIdentifier segment.toList = true) :
    (pathSegment? segment).isSome = true ↔ (Ident.plain segment).isMember = true := by
  -- The underscore alone is plain, but no word.
  have hne : segment ≠ "_" := by
    rintro rfl
    exact absurd h (by decide)
  have hword : Text.isIdentifier segment.toList = true := by
    have hplain := forall_mem_of_isPlainIdentifier h
    unfold Text.isIdentifier
    cases hs : segment.toList with
    | nil => rw [hs] at h; cases h
    | cons c cs =>
        rw [hs] at h hplain
        obtain ⟨hc, hcs⟩ := List.forall_mem_cons.mp hplain
        have hstart := (Bool.and_eq_true_iff.mp (Bool.and_eq_true_iff.mp h).1).1
        exact Bool.and_eq_true_iff.mpr ⟨(Token.start_of_isPathChar (Or.inl hc) hstart).2,
          List.all_eq_true.mpr fun d hd => Text.isIdentifierContinue_of_plain (hcs d hd)⟩
  unfold pathSegment?
  simp only [hword, hne, ne_eq, not_false_eq_true, true_and]
  split <;> simp_all

/-! ## Tokens -/

/-- The words of a path and the colons between them. -/
def pathTokens : List String → List Token
  | [] => []
  | [segment] => [.word segment]
  | segment :: next :: rest => .word segment :: .symbol "::" :: pathTokens (next :: rest)

theorem isPlain_of_mem_pathTokens {segments : List String} :
    ∀ t ∈ pathTokens segments, t.IsPlain := by
  fun_induction pathTokens segments with
  | case1 => exact List.forall_mem_nil _
  | case2 segment => exact List.forall_mem_singleton.mpr trivial
  | case3 segment next rest ih =>
      exact List.forall_mem_cons.mpr ⟨trivial, List.forall_mem_cons.mpr ⟨Or.inl rfl, ih⟩⟩

theorem isPathChar_of_mem_joinPath {segments : List String}
    (h : ∀ s ∈ segments, isPlainIdentifier s.toList = true) :
    ∀ c ∈ (joinPath segments).toList, Token.IsPathChar c := by
  fun_induction pathTokens segments with
  | case1 => exact fun c hc => nomatch hc
  | case2 segment =>
      rw [joinPath_singleton]
      exact fun c hc =>
        Or.inl (forall_mem_of_isPlainIdentifier (h segment List.mem_cons_self) c hc)
  | case3 segment next rest ih =>
      obtain ⟨hfirst, hrest⟩ := List.forall_mem_cons.mp h
      rw [joinPath_cons_cons]
      intro c hc
      rcases List.mem_append.mp hc with hc | hc
      · exact Or.inl (forall_mem_of_isPlainIdentifier hfirst c hc)
      rcases List.mem_cons.mp hc with rfl | hc
      · exact Or.inr rfl
      rcases List.mem_cons.mp hc with rfl | hc
      · exact Or.inr rfl
      exact ih hrest c hc

namespace Token

theorem word_inj {name name' : String} : word name = word name' ↔ name = name' := by
  simp [word, Ident.plain]

theorem read_of_head? {fuel : Nat} {brackets cs rest : List Char} {t : Token}
    (ht : head? cs = some (t, rest)) (hcs : ∀ c ∈ cs, IsPathChar c) :
    read (fuel + 1) brackets cs = (read fuel brackets rest).map (t :: ·) := by
  cases cs with
  | nil => cases ht
  | cons c cs =>
      have hc := hcs c List.mem_cons_self
      rw [read, if_neg (by simp [isSpace_of_isPathChar hc]), comment?_of_isPathChar hc]
      simp only [ht, Option.bind_eq_bind, Option.bind_some,
        awaited?_of_isPlain (isPlain_of_head? ht hcs).1]
      cases read fuel brackets rest <;> rfl

/-- A word is read up to what is no part of a name. -/
theorem head?_word_append {word : String} {rest : List Char}
    (hword : isPlainIdentifier word.toList = true)
    (hrest : rest.takeWhile Text.isIdentifierContinue = [])
    (hcs : ∀ c ∈ word.toList ++ rest, IsPathChar c) :
    head? (word.toList ++ rest) = some (.word word, rest) := by
  have hall : ∀ c ∈ word.toList, Text.isIdentifierContinue c = true := fun c hc =>
    Text.isIdentifierContinue_of_plain (forall_mem_of_isPlainIdentifier hword c hc)
  have htake : (word.toList ++ rest).takeWhile Text.isIdentifierContinue = word.toList := by
    rw [List.takeWhile_append_of_pos hall, hrest, List.append_nil]
  have hdrop : (word.toList ++ rest).dropWhile Text.isIdentifierContinue = rest := by
    have hsplit := List.takeWhile_append_dropWhile (p := Text.isIdentifierContinue)
      (l := word.toList ++ rest)
    rw [htake] at hsplit
    exact List.append_cancel_left hsplit
  rw [head?_of_word hcs (by rw [htake]; exact hword), htake, hdrop, String.ofList_toList]

theorem read_joinPath {segments : List String} (hne : segments ≠ [])
    (h : ∀ s ∈ segments, isPlainIdentifier s.toList = true) {fuel : Nat}
    (hfuel : (joinPath segments).toList.length < fuel) :
    read fuel [] (joinPath segments).toList = some (pathTokens segments) := by
  fun_induction pathTokens segments generalizing fuel with
  | case1 => exact absurd rfl hne
  | case2 segment =>
      rw [joinPath_singleton] at hfuel ⊢
      have hword := h segment List.mem_cons_self
      have hpos : 0 < segment.toList.length := by
        refine List.length_pos_of_ne_nil fun e => ?_
        rw [e] at hword
        cases hword
      obtain ⟨n, rfl⟩ : ∃ n, fuel = n + 2 := ⟨fuel - 2, by omega⟩
      have hchars : ∀ c ∈ segment.toList ++ [], IsPathChar c := by
        rw [List.append_nil]
        exact fun c hc => Or.inl (forall_mem_of_isPlainIdentifier hword c hc)
      have hhead := head?_word_append hword rfl hchars
      rw [List.append_nil] at hchars hhead
      rw [read_of_head? hhead hchars]
      rfl
  | case3 segment next rest ih =>
      obtain ⟨hfirst, hrest⟩ := List.forall_mem_cons.mp h
      have hchars := isPathChar_of_mem_joinPath h
      rw [joinPath_cons_cons] at hfuel hchars ⊢
      rw [List.length_append, List.length_cons, List.length_cons] at hfuel
      obtain ⟨n, rfl⟩ : ∃ n, fuel = n + 2 := ⟨fuel - 2, by omega⟩
      -- One step takes the word and one the colons, which are a single token.
      rw [read_of_head? (head?_word_append hfirst (List.takeWhile_cons_of_neg (by decide)) hchars)
          hchars,
        read_of_head? (t := .symbol "::") rfl fun c hc => hchars c (List.mem_append_right _ hc),
        ih (List.cons_ne_nil _ _) hrest (by omega)]
      rfl

theorem ofText?_joinPath {segments : List String} (hne : segments ≠ [])
    (h : ∀ s ∈ segments, isPlainIdentifier s.toList = true) :
    ofText? (joinPath segments) = some (pathTokens segments) :=
  read_joinPath hne h (Nat.lt_succ_self _)

end Token

/-! ## Types -/

namespace TypeText

theorem bind_eq {α β : Type} {x : Parse α} {f : α → Parse β} {ts rest : List Token} {a : α}
    (h : x ts = some (a, rest)) : (x >>= f) ts = f a rest := by
  change (x ts).bind _ = _
  rw [h]
  rfl

theorem isNext_of_ne {t t' : Token} (h : t' ≠ t) (ts : List Token) :
    isNext t (t' :: ts) = some (false, t' :: ts) := by
  change some (decide _, _) = _
  rw [List.head?_cons, decide_eq_false fun e => h (Option.some.inj e)]

theorem isName_or_mem_of_isMember {name : String} (h : (Ident.plain name).isMember = true) :
    isName (some (.word name)) = true ∨ name ∈ ["self", "Self", "super", "crate", "try"] :=
  (Bool.or_eq_true_iff.mp h).imp_right of_decide_eq_true

/-- A name stands in a path as it is if it may, whatever plain tokens follow. -/
theorem segment_word (n : Nat) {name : String} (hname : (Ident.plain name).isMember = true)
    {rest : List Token} (hrest : ∀ t ∈ rest, t.IsPlain) :
    segment (n + 1) (.word name :: rest) = some (⟨[.word name], true, true, true⟩, rest) := by
  have hopening : Token.symbol "<" ∉ rest := fun h => not_isPlain_symbol (by decide) (hrest _ h)
  rw [segment, bind_eq (x := peek) rfl, List.head?_cons]
  split
  · rfl
  · rename_i hplace
    have hword : (isName (some (.word name)) || decide (some (Token.word name) = some (.word "Self")))
        = true := by
      simp only [Option.some.injEq, Token.word_inj] at hplace ⊢
      rw [Bool.or_eq_true, decide_eq_true_eq]
      have hcases := isName_or_mem_of_isMember hname
      simp only [List.mem_cons, List.not_mem_nil] at hcases
      tauto
    rw [if_neg (by rw [hword]; decide)]
    refine (bind_eq (x := advance) rfl).trans ?_
    refine (bind_eq (x := get) rfl).trans ?_
    rw [if_neg fun h => hopening (List.mem_of_head? h),
      if_neg fun h => hopening (List.mem_of_getElem? h.2)]
    rfl

theorem segments_pathTokens {segments : List String} (hne : segments ≠ [])
    (h : ∀ s ∈ segments, (Ident.plain s).isMember = true) {n : Nat} (hn : segments.length < n) :
    ∃ isSingle, TypeText.segments n (pathTokens segments) =
      some (⟨pathTokens segments, isSingle, true, true⟩, []) := by
  fun_induction pathTokens segments generalizing n with
  | case1 => exact absurd rfl hne
  | case2 segment =>
      obtain ⟨n, rfl⟩ : ∃ m, n = m + 2 := ⟨n - 2, by simp at hn; omega⟩
      have hsegment := segment_word n (h segment List.mem_cons_self) (List.forall_mem_nil _)
      refine ⟨true, ?_⟩
      rw [TypeText.segments, bind_eq hsegment]
      rfl
  | case3 segment next rest ih =>
      obtain ⟨hfirst, hrest⟩ := List.forall_mem_cons.mp h
      obtain ⟨n, rfl⟩ : ∃ m, n = m + 2 := ⟨n - 2, by simp at hn; omega⟩
      obtain ⟨isSingle, htail⟩ := ih (List.cons_ne_nil _ _) hrest (n := n + 1)
        (by simp only [List.length_cons] at hn ⊢; omega)
      have hplain : ∀ t ∈ Token.symbol "::" :: pathTokens (next :: rest), t.IsPlain :=
        List.forall_mem_cons.mpr ⟨Or.inl rfl, isPlain_of_mem_pathTokens⟩
      refine ⟨false, ?_⟩
      rw [TypeText.segments, bind_eq (segment_word n hfirst hplain)]
      refine (bind_eq (x := get) rfl).trans ?_
      rw [if_pos ⟨rfl, fun h => not_isPlain_symbol (by decide) (hplain _ (List.mem_of_getElem? h))⟩]
      refine (bind_eq (x := symbol "::") rfl).trans ((bind_eq htail).trans ?_)
      rfl

theorem length_le_pathTokens (segments : List String) :
    segments.length ≤ (pathTokens segments).length := by
  fun_induction pathTokens segments with
  | case1 => exact Nat.le_refl _
  | case2 => exact Nat.le_refl _
  | case3 segment next rest ih =>
      simp only [List.length_cons] at ih ⊢
      omega

theorem exists_pathTokens (first : String) (rest : List String) :
    ∃ ts, pathTokens (first :: rest) = .word first :: ts := by
  cases rest with
  | nil => exact ⟨[], rfl⟩
  | cons next rest => exact ⟨_, rfl⟩

theorem word_ne_symbol (name symbol : String) : Token.word name ≠ .symbol symbol := Token.noConfusion

section

variable {segments : List String} (hne : segments ≠ [])
  (h : ∀ s ∈ segments, (Ident.plain s).isMember = true)

include hne h

theorem path_pathTokens {n : Nat} (hn : segments.length + 1 < n) :
    ∃ isSingle, path n (pathTokens segments) =
      some (⟨pathTokens segments, isSingle, true, true⟩, []) := by
  obtain ⟨n, rfl⟩ : ∃ m, n = m + 1 := ⟨n - 1, by omega⟩
  obtain ⟨first, rest, rfl⟩ := List.exists_cons_of_ne_nil hne
  obtain ⟨isSingle, hsegments⟩ := segments_pathTokens hne h (Nat.lt_of_succ_lt_succ hn)
  obtain ⟨ts, hts⟩ := exists_pathTokens first rest
  rw [hts] at hsegments ⊢
  have hleading : optional (.symbol "::") (.word first :: ts) = some ([], .word first :: ts) :=
    bind_eq (isNext_of_ne (word_ne_symbol _ _) _)
  refine ⟨isSingle, ?_⟩
  rw [path, bind_eq hleading, bind_eq hsegments]
  simp [Pure.pure, StateT.pure]

theorem pathType_pathTokens (allowsPlus : Bool) {n : Nat} (hn : segments.length + 2 < n) :
    pathType n allowsPlus [] (pathTokens segments) = some ((.path, pathTokens segments), []) := by
  obtain ⟨n, rfl⟩ : ∃ m, n = m + 2 := ⟨n - 2, by omega⟩
  obtain ⟨first, rest, rfl⟩ := List.exists_cons_of_ne_nil hne
  obtain ⟨isSingle, hpath⟩ := path_pathTokens hne h (n := n + 1) (by omega)
  obtain ⟨ts, hts⟩ := exists_pathTokens first rest
  rw [hts] at hpath ⊢
  rw [pathType, bind_eq (x := isNextSymbol "<") (isNext_of_ne (word_ne_symbol _ _) _),
    if_neg (by decide), bind_eq hpath]
  cases allowsPlus <;> rfl

theorem type_pathTokens (hstart : segments.head? ≠ some "try") (allowsPlus : Bool) {n : Nat}
    (hn : segments.length + 3 < n) :
    type n allowsPlus (pathTokens segments) = some ((.path, pathTokens segments), []) := by
  obtain ⟨n, rfl⟩ : ∃ m, n = m + 2 := ⟨n - 2, by omega⟩
  obtain ⟨first, rest, rfl⟩ := List.exists_cons_of_ne_nil hne
  have htype := pathType_pathTokens hne h allowsPlus (n := n + 1) (by omega)
  obtain ⟨ts, hts⟩ := exists_pathTokens first rest
  rw [hts] at htype ⊢
  have hfirst := h first List.mem_cons_self
  have hkeyword : ∀ keyword ∈ ["for", "fn", "unsafe", "extern"], first ≠ keyword := by
    rintro keyword hkeyword rfl
    exact absurd hfirst ((by decide : ∀ k ∈ ["for", "fn", "unsafe", "extern"],
      ¬ (Ident.plain k).isMember = true) first hkeyword)
  have hbinder : binder (n + 1) (.word first :: ts) = some ([], .word first :: ts) := by
    rw [binder]
    exact bind_eq (isNext_of_ne (fun e => hkeyword "for" (by decide) (Token.word_inj.mp e)) _)
  have hpath : (isName (some (.word first)) || isPathWord (some (.word first))) = true := by
    rcases isName_or_mem_of_isMember hfirst with hname | hplace
    · rw [hname, Bool.true_or]
    · simp only [List.head?_cons, ne_eq, Option.some.injEq] at hstart
      simp only [List.mem_cons, List.not_mem_nil, or_false] at hplace
      rcases hplace with rfl | rfl | rfl | rfl | rfl
      · decide
      · decide
      · decide
      · decide
      · exact absurd rfl hstart
  -- Of the forms of a type only a path starts with such a word.
  rw [type, bind_eq hbinder, bind_eq (x := peek) rfl, List.head?_cons]
  dsimp only
  rw [if_neg (by simp), if_neg (by simp [Token.word_inj, hkeyword]), if_pos (Or.inl hpath)]
  exact htype

/-- A path of words is read as a type, and as it stands. -/
theorem ofText?_joinPath (hwords : ∀ s ∈ segments, isPlainIdentifier s.toList = true)
    (hstart : segments.head? ≠ some "try") :
    ofText? (joinPath segments) = some (.verbatim .path (pathTokens segments)) := by
  have hlength := length_le_pathTokens segments
  rw [ofText?, Token.ofText?_joinPath hne hwords]
  change ofTokens? (pathTokens segments) = _
  rw [ofTokens?, type_pathTokens hne h hstart true (by rw [fuelFor]; omega)]

end

end TypeText

end Rust

end Graphwright
