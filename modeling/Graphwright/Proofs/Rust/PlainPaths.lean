import Graphwright.Proofs.Outcome
import Graphwright.Proofs.Registry.Namespaces
import Graphwright.Rust.Imports

/-!
# Paths of words

A text of words and colons is read as a path or not at all, unless its first word starts a type of
another form: nothing in it can follow a path, and no function type can do without brackets.
-/
namespace Graphwright.Rust

/-! ## Tokens -/

namespace Token

/-- A token of a text of words and colons. -/
def IsPlain : Token → Prop
  | ident _ => True
  | literal _ => True
  | symbol s => s = "::" ∨ s = ":"
  | lifetime _ => False

/-- A character of a text of words and colons. -/
def IsPathChar (c : Char) : Prop := (c.isAlphanum = true ∨ c = '_') ∨ c = ':'

instance (c : Char) : Decidable (IsPathChar c) := inferInstanceAs (Decidable (_ ∨ _))

theorem forall_isPathChar {P : Char → Prop}
    (h : ∀ n < 128, IsPathChar (Char.ofNat n) → P (Char.ofNat n)) {c : Char} (hc : IsPathChar c) :
    P c := by
  have hascii : Text.isAscii c = true := by
    rcases hc with (hc | rfl) | rfl
    · exact Text.isAscii_of_isAlphanum hc
    · decide
    · decide
  have hn := h c.toNat (by simpa [Text.isAscii] using hascii)
  rw [Char.ofNat_toNat] at hn
  exact hn hc

theorem isSpace_of_isPathChar {c : Char} : IsPathChar c → isSpace c = false :=
  forall_isPathChar (P := fun c => isSpace c = false) (by decide)

theorem ne_of_isPathChar {c d : Char} (hc : IsPathChar c) (hd : ¬ IsPathChar d) : c ≠ d := by
  rintro rfl
  exact hd hc

theorem comment?_of_isPathChar {c : Char} {cs : List Char} (h : IsPathChar c) :
    comment? (c :: cs) = none := by
  have hslash : c ≠ '/' := ne_of_isPathChar h (by decide)
  unfold comment?
  split <;> simp_all

theorem isPathChar_cases {c : Char} : IsPathChar c →
    c.isDigit = true ∨ Text.isIdentifierStart c = true ∨ c = ':' :=
  forall_isPathChar (P := fun c => c.isDigit = true ∨ Text.isIdentifierStart c = true ∨ c = ':')
    (by decide)

theorem start_of_isPathChar {c : Char} : IsPathChar c → (c.isAlpha || c = '_') = true →
    c.isDigit = false ∧ Text.isIdentifierStart c = true :=
  forall_isPathChar (P := fun c => (c.isAlpha || c = '_') = true →
    c.isDigit = false ∧ Text.isIdentifierStart c = true) (by decide)

theorem mem_of_mem_spanNumber {cs : List Char} : ∀ c ∈ (spanNumber cs).2, c ∈ cs := by
  have hdrop : ∀ c ∈ cs.dropWhile isNumberPart, c ∈ cs := fun c hc =>
    (List.dropWhile_suffix _).mem hc
  unfold spanNumber
  dsimp only
  split
  · rename_i d rest hpoint
    rw [hpoint] at hdrop
    split
    · exact fun c hc => hdrop c (List.mem_cons_of_mem _ ((List.dropWhile_suffix _).mem hc))
    · exact hdrop
  · exact hdrop

theorem isPlain_of_head? {cs rest : List Char} {t : Token} (h : head? cs = some (t, rest))
    (hcs : ∀ c ∈ cs, IsPathChar c) : t.IsPlain ∧ ∀ c ∈ rest, IsPathChar c := by
  have hmem : ∀ {d : Char}, d ∈ cs → ¬ IsPathChar d → t.IsPlain ∧ ∀ c ∈ rest, IsPathChar c :=
    fun hd hne => absurd (hcs _ hd) hne
  unfold head? at h
  split at h
  · cases h
  · exact hmem List.mem_cons_self (by decide)
  · exact hmem (List.mem_cons_of_mem _ List.mem_cons_self) (by decide)
  · exact hmem List.mem_cons_self (by decide)
  · exact hmem (List.mem_cons_of_mem _ List.mem_cons_self) (by decide)
  · cases h
    exact ⟨Or.inl rfl, fun c hc => hcs c (List.mem_cons_of_mem _ (List.mem_cons_of_mem _ hc))⟩
  · exact hmem List.mem_cons_self (by decide)
  · exact hmem List.mem_cons_self (by decide)
  · rename_i c cs _ _ _ _ _ _ _
    split at h
    · cases h
      exact ⟨trivial, fun d hd => hcs d (mem_of_mem_spanNumber d hd)⟩
    · split at h
      · cases h
        exact ⟨trivial, fun d hd => hcs d ((List.dropWhile_suffix _).mem hd)⟩
      · split at h
        · cases h
          obtain rfl : c = ':' := by
            simpa [*] using isPathChar_cases (hcs c List.mem_cons_self)
          exact ⟨Or.inr rfl, fun d hd => hcs d (List.mem_cons_of_mem _ hd)⟩
        · cases h

/-- A word at the head of a text is its first token. -/
theorem head?_of_word {cs : List Char} (hcs : ∀ c ∈ cs, IsPathChar c)
    (hword : isPlainIdentifier (cs.takeWhile Text.isIdentifierContinue) = true) :
    head? cs = some (.word (String.ofList (cs.takeWhile Text.isIdentifierContinue)),
      cs.dropWhile Text.isIdentifierContinue) := by
  have hmem : ∀ {d : Char}, d ∈ cs → ¬ IsPathChar d → False :=
    fun hd hne => absurd (hcs _ hd) hne
  unfold head?
  split
  · cases hword
  · exact (hmem List.mem_cons_self (by decide)).elim
  · exact (hmem (List.mem_cons_of_mem _ List.mem_cons_self) (by decide)).elim
  · exact (hmem List.mem_cons_self (by decide)).elim
  · exact (hmem (List.mem_cons_of_mem _ List.mem_cons_self) (by decide)).elim
  · rw [List.takeWhile_cons_of_neg (by decide)] at hword
    cases hword
  · exact (hmem List.mem_cons_self (by decide)).elim
  · exact (hmem List.mem_cons_self (by decide)).elim
  · rename_i c cs _ _ _ _ _ _ _
    have hstart : c.isDigit = false ∧ Text.isIdentifierStart c = true := by
      rw [List.takeWhile_cons] at hword
      split at hword
      · rw [isPlainIdentifier, Bool.and_eq_true, Bool.and_eq_true] at hword
        exact start_of_isPathChar (hcs c List.mem_cons_self) hword.1.1
      · cases hword
    rw [if_neg (by simp [hstart.1]), if_pos hstart.2]
    rfl

theorem awaited?_of_isPlain {t : Token} (h : t.IsPlain) (brackets : List Char) :
    awaited? brackets t = some brackets := by
  cases t with
  | symbol s => rcases h with rfl | rfl <;> rfl
  | _ => rfl

theorem read_cons {fuel : Nat} {brackets cs : List Char} {tokens : List Token}
    (h : read (fuel + 1) brackets cs = some tokens) (hcs : ∀ c ∈ cs, IsPathChar c) (hne : cs ≠ []) :
    ∃ t rest others, head? cs = some (t, rest) ∧ read fuel brackets rest = some others ∧
      tokens = t :: others := by
  obtain ⟨c, cs, rfl⟩ := List.exists_cons_of_ne_nil hne
  have hc := hcs c List.mem_cons_self
  rw [read, if_neg (by simp [isSpace_of_isPathChar hc]), comment?_of_isPathChar hc] at h
  obtain ⟨⟨t, rest⟩, ht, h⟩ := Option.bind_eq_some_iff.mp h
  dsimp only at h
  rw [awaited?_of_isPlain (isPlain_of_head? ht hcs).1] at h
  obtain ⟨_, hbrackets, h⟩ := Option.bind_eq_some_iff.mp h
  cases hbrackets
  obtain ⟨others, hothers, h⟩ := Option.bind_eq_some_iff.mp h
  cases h
  exact ⟨t, rest, others, ht, hothers, rfl⟩

theorem isPlain_of_read {fuel : Nat} {brackets cs : List Char} {tokens : List Token}
    (h : read fuel brackets cs = some tokens) (hcs : ∀ c ∈ cs, IsPathChar c) :
    ∀ t ∈ tokens, t.IsPlain := by
  induction fuel generalizing cs tokens with
  | zero => cases h
  | succ fuel ih =>
      by_cases hne : cs = []
      · subst hne
        rw [read] at h
        split at h
        · cases h
          exact List.forall_mem_nil _
        · cases h
      · obtain ⟨t, rest, others, ht, hothers, rfl⟩ := read_cons h hcs hne
        obtain ⟨hplain, hrest⟩ := isPlain_of_head? ht hcs
        exact List.forall_mem_cons.mpr ⟨hplain, ih hothers hrest⟩

end Token

/-! ## Grammar -/

namespace TypeText

variable {α β : Type} {P : α → Prop} {Q : β → Prop}

/-- From plain tokens, `x` reads what satisfies `P` and leaves plain tokens. -/
def Yields (P : α → Prop) (x : Parse α) : Prop :=
  ∀ ts : List Token, (∀ t ∈ ts, t.IsPlain) → ∀ a rest, x ts = some (a, rest) →
    P a ∧ ∀ t ∈ rest, t.IsPlain

theorem bind_ok {x : Parse α} {f : α → Parse β} {ts rest : List Token} {b : β} :
    (x >>= f) ts = some (b, rest) ↔ ∃ a mid, x ts = some (a, mid) ∧ f a mid = some (b, rest) := by
  constructor
  · intro h
    obtain ⟨⟨a, mid⟩, ha, hb⟩ := Option.bind_eq_some_iff.mp h
    exact ⟨a, mid, ha, hb⟩
  · rintro ⟨a, mid, ha, hb⟩
    exact Option.bind_eq_some_iff.mpr ⟨(a, mid), ha, hb⟩

namespace Yields

theorem pure {a : α} (h : P a) : Yields P (Pure.pure a : Parse α) := by
  intro ts hts b rest e
  cases e
  exact ⟨h, hts⟩

theorem failure : Yields P (Alternative.failure : Parse α) := fun _ _ _ _ e => nomatch e

theorem bind {x : Parse α} {f : α → Parse β} (hx : Yields P x) (hf : ∀ a, P a → Yields Q (f a)) :
    Yields Q (x >>= f) := by
  intro ts hts b rest e
  obtain ⟨a, mid, ha, hb⟩ := bind_ok.mp e
  obtain ⟨hpa, hmid⟩ := hx ts hts a mid ha
  exact hf a hpa mid hmid b rest hb

theorem ite {c : Prop} [Decidable c] {x y : Parse α} (hx : Yields P x) (hy : Yields P y) :
    Yields P (if c then x else y) := by
  split
  · exact hx
  · exact hy

theorem of_ok {x : Parse α} {ts rest : List Token} {a : α} (hx : Yields P x)
    (hts : ∀ t ∈ ts, t.IsPlain) (h : x ts = some (a, rest)) : P a := (hx ts hts a rest h).1

/-- A check in front of a computation. -/
theorem guarded {c : Prop} [Decidable c] {f : Unit → Parse β} (hf : Yields Q (f ())) :
    Yields Q (if c then Alternative.failure >>= f else f ()) :=
  .ite (bind (P := fun _ => False) failure fun _ h => h.elim) hf

end Yields

theorem yields_get : Yields (fun ts => ∀ t ∈ ts, t.IsPlain) (get : Parse (List Token)) := by
  intro ts hts a rest e
  cases e
  exact ⟨hts, hts⟩

theorem yields_peek : Yields (fun o => ∀ t, o = some t → t.IsPlain) peek :=
  yields_get.bind fun _ hts => .pure fun t ht => hts t (List.mem_of_head? ht)

theorem yields_isNext {t : Token} (ht : ¬ t.IsPlain) : Yields (· = false) (isNext t) :=
  yields_peek.bind fun _ ho => .pure (decide_eq_false fun e => ht (ho t e))

theorem yields_advance : Yields (fun _ => True) advance := by
  refine yields_get.bind fun ts hts => ?_
  cases ts with
  | nil => exact .failure
  | cons t ts =>
      refine Yields.bind (P := fun _ => True) ?_ fun _ _ => .pure trivial
      intro _ _ a rest e
      cases e
      exact ⟨trivial, fun u hu => hts u (List.mem_cons_of_mem t hu)⟩

theorem yields_isNext_any {t : Token} : Yields (fun _ => True) (isNext t) :=
  yields_peek.bind fun _ _ => .pure trivial

theorem yields_expect {t : Token} : Yields (fun _ => True) (expect t) :=
  yields_isNext_any.bind fun _ _ => .ite (yields_advance.bind fun _ _ => .pure trivial) .failure

theorem yields_optional {t : Token} : Yields (fun _ => True) (optional t) :=
  yields_isNext_any.bind fun _ _ =>
    .ite (yields_advance.bind fun _ _ => .pure trivial) (.pure trivial)

theorem fails_expect {t : Token} (ht : ¬ t.IsPlain) : Yields (fun _ => False) (expect t) :=
  (yields_isNext ht).bind fun b hb => by
    rw [hb]
    exact .failure

theorem not_isPlain_symbol {s : String} (h : s ≠ "::" ∧ s ≠ ":") : ¬ (Token.symbol s).IsPlain :=
  not_or.mpr h

/-! ## Paths -/

theorem yields_segment (n : Nat) : Yields (fun _ => True) (segment n) := by
  cases n with
  | zero => exact .failure
  | succ n =>
      rw [segment]
      refine yields_peek.bind fun next _ => .ite (yields_advance.bind fun _ _ => .pure trivial) ?_
      refine .guarded (yields_advance.bind fun name _ => yields_get.bind fun ts hts => ?_)
      have hopening : Token.symbol "<" ∉ ts := fun h =>
        not_isPlain_symbol (by decide) (hts _ h)
      rw [if_neg fun h => hopening (List.mem_of_head? h),
        if_neg fun h => hopening (List.mem_of_getElem? h.2)]
      exact .pure trivial

theorem yields_segments (n : Nat) : Yields (fun _ => True) (segments n) := by
  induction n with
  | zero => exact .failure
  | succ n ih =>
      rw [segments]
      exact (yields_segment n).bind fun _ _ => yields_get.bind fun _ _ =>
        .ite (yields_expect.bind fun _ _ => ih.bind fun _ _ => .pure trivial) (.pure trivial)

theorem yields_path (n : Nat) : Yields (fun _ => True) (path n) := by
  cases n with
  | zero => exact .failure
  | succ n =>
      exact yields_optional.bind fun _ _ => (yields_segments n).bind fun _ _ => .pure trivial

theorem yields_callArguments (n : Nat) (whole : PathText) :
    Yields (fun _ => True) (callArguments n whole) := by
  cases n with
  | zero => exact .failure
  | succ n =>
      rw [callArguments]
      refine yields_get.bind fun ts hts => ?_
      have hopening : Token.symbol "(" ∉ ts := fun h =>
        not_isPlain_symbol (by decide) (hts _ h)
      have hcall : (decide (ts.head? = some (Token.symbol "(")) ||
          decide (ts.head? = some (Token.symbol "::"))
            && decide (ts[1]? = some (Token.symbol "("))) = false := by
        rw [decide_eq_false fun h => hopening (List.mem_of_head? h),
          decide_eq_false (p := ts[1]? = _) fun h => hopening (List.mem_of_getElem? h)]
        simp
      dsimp only
      rw [hcall, if_pos (Or.inr (by decide))]
      exact .pure trivial

theorem yields_pathType (n : Nat) (allowsPlus : Bool) :
    Yields (fun t => t.1 = .path) (pathType n allowsPlus []) := by
  cases n with
  | zero => exact .failure
  | succ n =>
      rw [pathType]
      refine (yields_isNext (not_isPlain_symbol (by decide))).bind fun _ hopening => ?_
      rw [if_neg (by simp [hopening])]
      refine (yields_path n).bind fun _ _ => (yields_callArguments n _).bind fun _ _ =>
        (yields_isNext (not_isPlain_symbol (by decide))).bind fun _ hbang => ?_
      rw [if_neg (by simp [hbang])]
      refine (yields_isNext (not_isPlain_symbol (by decide))).bind fun _ hplus => ?_
      rw [if_neg (by simp [hplus])]
      exact .pure rfl

theorem fails_functionType (n : Nat) : Yields (fun _ => False) (functionType n) := by
  cases n with
  | zero => exact .failure
  | succ n =>
      rw [functionType]
      have hhead : ∀ words convention, Yields (fun _ => False) (do
          let head ← expect (.word "fn")
          let opening ← symbol "("
          let params ← functionParams n
          let closing ← symbol ")"
          let returns ← returned n
          pure (words ++ convention ++ head ++ opening ++ joined "," params ++ closing ++ returns)) :=
        fun _ _ => yields_expect.bind fun _ _ => (fails_expect (not_isPlain_symbol (by decide))).bind
          fun _ h => h.elim
      refine yields_optional.bind fun _ _ => yields_isNext_any.bind fun _ _ => .ite ?_ (hhead _ _)
      exact yields_expect.bind fun _ _ => yields_peek.bind fun _ _ =>
        .ite (yields_advance.bind fun _ _ => hhead _ _) (hhead _ _)

/-- Only in front of brackets lifetimes are named. -/
theorem binder_eq {n : Nat} {ts rest tokens : List Token} (hts : ∀ t ∈ ts, t.IsPlain)
    (h : binder n ts = some (tokens, rest)) : tokens = [] ∧ rest = ts := by
  cases n with
  | zero => cases h
  | succ n =>
      rw [binder] at h
      obtain ⟨isFor, mid, hfor, h⟩ := bind_ok.mp h
      cases hfor
      split at h
      · obtain ⟨_, mid, hword, h⟩ := bind_ok.mp h
        obtain ⟨_, hmid⟩ := yields_expect ts hts _ _ hword
        obtain ⟨_, mid', hopening, h⟩ := bind_ok.mp h
        exact (fails_expect (not_isPlain_symbol (by decide)) mid hmid _ _ hopening).1.elim
      · cases h
        exact ⟨rfl, rfl⟩

/-- Keywords with which types start that are not paths. -/
def typeKeywords : List String := ["dyn", "impl"]

theorem form_of_type {n : Nat} {allowsPlus : Bool} {first : String} {ts rest spelled : List Token}
    {form : TypeForm} (hfirst : first ∉ "_" :: typeKeywords) (hts : ∀ t ∈ ts, t.IsPlain)
    (h : type n allowsPlus (.word first :: ts) = some ((form, spelled), rest)) : form = .path := by
  have hall : ∀ t ∈ Token.word first :: ts, t.IsPlain := List.forall_mem_cons.mpr ⟨trivial, hts⟩
  cases n with
  | zero => cases h
  | succ n =>
      rw [type] at h
      obtain ⟨words, mid, hbinder, h⟩ := bind_ok.mp h
      obtain ⟨rfl, rfl⟩ := binder_eq hall hbinder
      obtain ⟨next, mid, hnext, h⟩ := bind_ok.mp h
      cases hnext
      refine Yields.of_ok (P := fun t => t.1 = .path) ?_ hall h
      dsimp only
      rw [if_neg (by simp), List.head?_cons]
      refine .ite ((fails_functionType n).bind fun _ h => h.elim) (.ite (yields_pathType n _) ?_)
      rw [if_neg (by simp [isLifetime, Token.word])]
      split
      case h_6 e | h_7 e | h_8 e =>
        obtain rfl : first = _ := by injection e with e; injection e with e; injection e
        exact absurd hfirst (by decide)
      case h_9 => exact .failure
      all_goals rename_i e; cases e

/-- The text of a path of words that starts none of the other types is read as a path. -/
theorem form_of_ofText? {path : String} {type : Ty} (h : ofText? path = some type)
    (hpath : ∀ c ∈ path.toList, Token.IsPathChar c) {first : String}
    (hword : isPlainIdentifier first.toList = true)
    (hfirst : path.toList.takeWhile Text.isIdentifierContinue = first.toList)
    (hforms : first ∉ "_" :: typeKeywords) : type.form = .path := by
  obtain ⟨tokens, htokens, h⟩ := Option.bind_eq_some_iff.mp h
  have hne : path.toList ≠ [] := by
    rintro e
    rw [← hfirst, e] at hword
    cases hword
  obtain ⟨t, rest, others, ht, hothers, rfl⟩ := Token.read_cons htokens hpath hne
  rw [Token.head?_of_word hpath (hfirst ▸ hword), hfirst, String.ofList_toList] at ht
  cases ht
  unfold ofTokens? at h
  split at h
  · rename_i form spelled htype
    cases h
    refine form_of_type hforms (Token.isPlain_of_read hothers fun c hc => ?_) htype
    exact hpath c ((List.dropWhile_suffix _).mem hc)
  · cases h

end TypeText

/-! ## Items -/

namespace Imports

/-- Each path is spelled by one name or as the type that its text is read as. -/
def AreFaithful (spellings : List (String × Ty)) : Prop :=
  ∀ p type, Entries.get? p spellings = some type →
    (∃ i, type = .named i) ∨ TypeText.ofText? p = some type

theorem AreFaithful.put {spellings : List (String × Ty)} (h : AreFaithful spellings) {path : String}
    {type : Ty} (htype : (∃ i, type = .named i) ∨ TypeText.ofText? path = some type) :
    AreFaithful (Entries.put path type spellings) := by
  intro p t hp
  rw [Entries.get?_put] at hp
  split at hp
  · rename_i e
    cases e
    cases hp
    exact htype
  · exact h p t hp

theorem AreFaithful.know {imports imports' : Imports} (h : AreFaithful imports.spellings)
    {path : String} (hk : imports.know path = .ok imports') : AreFaithful imports'.spellings := by
  unfold Imports.know at hk
  split at hk
  · cases hk
    exact h
  · split at hk
    · split at hk
      · cases hk
        exact h.put (Or.inl ⟨_, rfl⟩)
      · cases hk
    · split at hk
      · rename_i htext
        cases hk
        exact h.put (Or.inr htext)
      · cases hk

section

variable {item : Code.Model} {ownPath path : String} {defined : List String} {imports : Imports}
  {type : Ty}

theorem areFaithful_of (h : Imports.of item ownPath defined = .ok imports) :
    AreFaithful imports.spellings := by
  obtain ⟨own, _, h⟩ := Outcome.bind_ok.mp h
  refine Outcome.foldlM_ok (P := fun imports : Imports => AreFaithful imports.spellings)
    (fun _ _ _ h hk => h.know hk) ?_ h
  have hstart : AreFaithful [] := fun _ _ hp => nomatch hp
  exact hstart.put (Or.inl ⟨own, rfl⟩)

theorem spelled_of_typeAt (h : Imports.of item ownPath defined = .ok imports)
    (ht : imports.typeAt path = .ok type) :
    (∃ i, type = .named i) ∨ TypeText.ofText? path = some type := by
  unfold typeAt at ht
  split at ht
  · rename_i hp
    cases ht
    exact areFaithful_of h path _ hp
  · split at ht
    · rename_i htext
      cases ht
      exact Or.inr htext
    · cases ht

/-- Items of a namespace are spelled as paths, unless the namespace starts with a keyword for other
types. -/
theorem form_of_typePath {home : Namespace} {name : String} (hname : Text.IsPlain name)
    (hhome : ∀ first ∈ home.segments.head?, first ∉ TypeText.typeKeywords)
    (h : Imports.of item ownPath defined = .ok imports)
    (ht : imports.typeAt (home.typePath name) = .ok type) : type.form = .path := by
  rcases spelled_of_typeAt h ht with ⟨i, rfl⟩ | htext
  · rfl
  · obtain ⟨first, hhead, hword, hfirst⟩ := home.takeWhile_typePath name
    have hblank : first ≠ "_" := by
      rintro rfl
      exact absurd hword (by decide)
    exact TypeText.form_of_ofText? htext (home.mem_typePath hname) hword hfirst
      (List.not_mem_cons_of_ne_of_not_mem hblank (hhome first hhead))

end

end Imports

end Graphwright.Rust
