import Graphwright.Proofs.Text.ReadBack
import Graphwright.Request.StringLiteral
import Graphwright.Schema.Lexeme

/-!
# String literals are read back

A literal is read by the rules of the query language: a backslash starts an escape, a bare quote
ends the literal, and line ends and control characters do not occur in it as they are. Every
character is read back from its escape, so a literal ends at its own closing quote and nowhere
before. Only the empty literal depends on what follows it, since three quotes open a text of another
kind.
-/
namespace Graphwright.StringLiteral

open Schema (Lexeme)
open Text (ReadsBack hexDigit?)

/-! ## One character -/

/-- The number that exactly four hexadecimal digits stand for. -/
def fourDigits? : List Char → Option Nat
  | [a, b, c, d] => do
    return ((16 * (← hexDigit? a) + (← hexDigit? b)) * 16 + (← hexDigit? c)) * 16 + (← hexDigit? d)
  | _ => none

/-- The characters that stand for themselves or for a control character behind a backslash. -/
def simpleEscape? : Char → Option Char
  | '"' => some '"'
  | '\\' => some '\\'
  | '/' => some '/'
  | 'b' => some '\x08'
  | 'f' => some '\x0c'
  | 'n' => some '\n'
  | 'r' => some '\r'
  | 't' => some '\t'
  | _ => none

/-- The character with a number; surrogates are no characters. -/
def ofNumber? (n : Nat) : Option Char := if n.isValidChar then some (Char.ofNat n) else none

/-- A character that can stand for itself: a tab, or one from the space on. -/
def IsRaw (c : Char) : Prop := c ≠ '"' ∧ c ≠ '\\' ∧ (c = '\t' ∨ ' ' ≤ c)

instance (c : Char) : Decidable (IsRaw c) := inferInstanceAs (Decidable (_ ∧ _ ∧ _))

/-- Reads one character of a literal; there is none where the literal ends or is malformed. -/
def readChar : List Char → Option (Char × List Char)
  | '\\' :: 'u' :: cs => do
    return (← ofNumber? (← fourDigits? (cs.take 4)), cs.drop 4)
  | '\\' :: c :: cs => do return (← simpleEscape? c, cs)
  | c :: cs => if IsRaw c then some (c, cs) else none
  | [] => none

/-- Every control character is among the first 160, so that its four digits can be checked. -/
theorem fourDigits?_paddedDigits :
    ∀ n < 160, fourDigits? ((Text.paddedDigits 16 4 n).map Char.toUpper) = some n := by
  decide +kernel

theorem lt_of_isControl {c : Char} (h : Text.isControl c = true) : c.toNat < 160 := by
  simp only [Text.isControl, Bool.or_eq_true, decide_eq_true_eq, Bool.and_eq_true] at h
  omega

/-- The four digits and what each is worth. -/
theorem exists_digits_of_fourDigits? {ds : List Char} {n : Nat} (h : fourDigits? ds = some n) :
    ∃ a b c d w x y z, ds = [a, b, c, d] ∧ hexDigit? a = some w ∧ hexDigit? b = some x ∧
      hexDigit? c = some y ∧ hexDigit? d = some z ∧ ((w * 16 + x) * 16 + y) * 16 + z = n := by
  unfold fourDigits? at h
  split at h
  · rename_i a b c d
    simp only [Option.bind_eq_bind, Option.bind_eq_some_iff, Option.pure_def,
      Option.some.injEq] at h
    obtain ⟨w, hw, x, hx, y, hy, z, hz, rfl⟩ := h
    exact ⟨a, b, c, d, w, x, y, z, rfl, hw, hx, hy, hz, by omega⟩
  · cases h

theorem length_of_fourDigits? {cs : List Char} {n : Nat} (h : fourDigits? cs = some n) :
    cs.length = 4 := by
  obtain ⟨a, b, c, d, _, _, _, _, rfl, _⟩ := exists_digits_of_fourDigits? h
  rfl

theorem ofNumber?_toNat (c : Char) : ofNumber? c.toNat = some c := by
  have hvalid : c.toNat.isValidChar := c.valid
  rw [ofNumber?, if_pos hvalid, Char.ofNat_toNat]

theorem isRaw_of_not_isControl {c : Char} (hq : c ≠ '"') (hb : c ≠ '\\')
    (h : Text.isControl c = false) : IsRaw c := by
  refine ⟨hq, hb, Or.inr ?_⟩
  simp only [Text.isControl, Bool.or_eq_false_iff, decide_eq_false_iff_not] at h
  exact Nat.not_lt.mp h.1

theorem readChar_raw {c : Char} (cs : List Char) (h : IsRaw c) :
    readChar (c :: cs) = some (c, cs) := by
  unfold readChar
  split
  · rename_i e; cases e; exact absurd rfl h.2.1
  · rename_i e; cases e; exact absurd rfl h.2.1
  · rename_i e
    cases e
    exact if_pos h
  · rename_i e; cases e

/-- The characters that are written by a letter behind a backslash, with their letters. -/
def letters : List (Char × Char) :=
  [('"', '"'), ('\\', '\\'), ('\n', 'n'), ('\r', 'r'), ('\t', 't')]

/-- A character is written by its letter, by its number if it is another control character, or as it
is. -/
theorem escapeChar_cases (c : Char) :
    (∃ d, (c, d) ∈ letters ∧ escapeChar c = ['\\', d]) ∨
    (∃ ds, fourDigits? ds = some c.toNat ∧ c.toNat < 160 ∧ escapeChar c = '\\' :: 'u' :: ds) ∨
    (c ≠ '"' ∧ c ≠ '\\' ∧ Text.isControl c = false ∧ escapeChar c = [c]) := by
  unfold escapeChar
  split
  · exact Or.inl ⟨'"', by simp [letters, *], rfl⟩
  split
  · exact Or.inl ⟨'\\', by simp [letters, *], rfl⟩
  split
  · exact Or.inl ⟨'n', by simp [letters, *], rfl⟩
  split
  · exact Or.inl ⟨'r', by simp [letters, *], rfl⟩
  split
  · exact Or.inl ⟨'t', by simp [letters, *], rfl⟩
  rename_i hq hb _ _ _
  split
  · rename_i hc
    have hlt := lt_of_isControl hc
    exact Or.inr (Or.inl ⟨_, fourDigits?_paddedDigits _ hlt, hlt, rfl⟩)
  · rename_i hc
    exact Or.inr (Or.inr ⟨hq, hb, by simpa using hc, rfl⟩)

/-- A letter stands for its character. -/
theorem readChar_letter (s : List Char) :
    ∀ e ∈ letters, readChar ('\\' :: e.2 :: s) = some (e.1, s) := by
  simp [letters, readChar, simpleEscape?]

/-- A character is read back from the way it is written. -/
theorem readChar_escapeChar (c : Char) (s : List Char) :
    readChar (escapeChar c ++ s) = some (c, s) := by
  rcases escapeChar_cases c with ⟨d, hd, e⟩ | ⟨ds, hds, _, e⟩ | ⟨hq, hb, hc, e⟩
  · rw [e]
    exact readChar_letter s _ hd
  · have hl := length_of_fourDigits? hds
    rw [e]
    simp only [List.cons_append, readChar, List.take_left' hl, List.drop_left' hl, hds,
      Option.bind_eq_bind, Option.bind_some, Option.pure_def, ofNumber?_toNat]
  · rw [e]
    exact readChar_raw s (isRaw_of_not_isControl hq hb hc)

theorem readsBack_escapeChar (c : Char) :
    ReadsBack escapeChar (fun _ => True) (fun _ => True) c :=
  .of_reader (fun c s _ _ => readChar_escapeChar c s) trivial

/-- No escape begins with the quote that closes a literal. -/
theorem escapeChar_append_ne_quote (c : Char) (s t : List Char) :
    escapeChar c ++ s ≠ ['"'] ++ t := by
  intro h
  have hr := readChar_escapeChar c s
  rw [h] at hr
  cases hr

/-! ## A whole literal -/

/-- A literal is told apart from every other one, whatever follows its closing quote. -/
theorem readsBack_chars (cs : List Char) : ReadsBack chars (fun _ => True) (fun _ => True) cs := by
  intro ds s t _ _ _ h
  have hbody : ReadsBack (fun cs => cs.flatMap escapeChar ++ ['"']) (fun bs => ∀ b ∈ bs, True)
      (fun _ => True) cs :=
    Text.readsBack_flatMap (fun a s t _ => escapeChar_append_ne_quote a s t)
      (fun _ _ _ => trivial) (fun _ => trivial) (fun c _ => readsBack_escapeChar c)
      (fun _ _ => trivial)
  simp only [chars, List.cons_append, List.cons.injEq, true_and] at h
  exact hbody ds s t (fun _ _ => trivial) trivial trivial h

theorem length_lt_of_readChar {cs rest : List Char} {c : Char}
    (h : readChar cs = some (c, rest)) : rest.length < cs.length := by
  unfold readChar at h
  split at h
  · simp only [Option.bind_eq_bind, Option.bind_eq_some_iff, Option.pure_def, Option.some.injEq,
      Prod.mk.injEq] at h
    obtain ⟨n, _, d, _, _, rfl⟩ := h
    simp only [List.length_drop, List.length_cons]
    omega
  · simp only [Option.bind_eq_bind, Option.bind_eq_some_iff, Option.pure_def, Option.some.injEq,
      Prod.mk.injEq] at h
    obtain ⟨d, _, _, rfl⟩ := h
    simp only [List.length_cons]
    omega
  · split at h
    · cases h
      simp
    · cases h
  · cases h

/-- Reads what is left of a literal: the characters up to its closing quote, and the text behind
that. -/
def readBody (cs : List Char) : Option (List Char × List Char) :=
  match cs with
  | '"' :: rest => some ([], rest)
  | cs =>
    match _h : readChar cs with
    | some (c, rest) => (readBody rest).map fun (text, rest) => (c :: text, rest)
    | none => none
  termination_by cs.length
  decreasing_by exact length_lt_of_readChar _h

/-- Reads a quoted literal from its opening quote on. A quote that is the first of three opens a text
of another kind, which is no quoted literal. -/
def read : List Char → Option (List Char × List Char)
  | '"' :: '"' :: '"' :: _ => none
  | '"' :: cs => readBody cs
  | _ => none

/-- What may stand between the quotes of a literal: escapes, and no bare quote, backslash or control
character. -/
inductive IsBody : List Char → Prop
  | nil : IsBody []
  | raw {c : Char} {cs : List Char} :
      c ≠ '"' → c ≠ '\\' → Text.isControl c = false → IsBody cs → IsBody (c :: cs)
  | escape {c : Char} {cs : List Char} :
      (simpleEscape? c).isSome = true → IsBody cs → IsBody ('\\' :: c :: cs)
  | number {ds cs : List Char} :
      (fourDigits? ds).isSome = true → IsBody cs → IsBody ('\\' :: 'u' :: ds ++ cs)

theorem isSome_simpleEscape? : ∀ e ∈ letters, (simpleEscape? e.2).isSome = true := by decide

theorem IsBody.escapeChar_append (c : Char) {cs : List Char} (h : IsBody cs) :
    IsBody (escapeChar c ++ cs) := by
  rcases escapeChar_cases c with ⟨d, hd, e⟩ | ⟨ds, hds, _, e⟩ | ⟨hq, hb, hc, e⟩
  · rw [e]
    exact .escape (isSome_simpleEscape? _ hd) h
  · rw [e]
    exact .number (Option.isSome_iff_exists.mpr ⟨_, hds⟩) h
  · rw [e]
    exact .raw hq hb hc h

theorem isBody_flatMap (cs : List Char) : IsBody (cs.flatMap escapeChar) := by
  induction cs with
  | nil => exact .nil
  | cons c cs ih => exact ih.escapeChar_append c

theorem not_isControl_of_le {a b c : Char} (h : a ≤ c ∧ c ≤ b) (hab : ' ' ≤ a ∧ b ≤ '~') :
    Text.isControl c = false := by
  have hl : 32 ≤ c.toNat := Nat.le_trans hab.1 h.1
  have hu : c.toNat ≤ 126 := Nat.le_trans h.2 hab.2
  simp only [Text.isControl, Bool.or_eq_false_iff, Bool.and_eq_false_iff, decide_eq_false_iff_not]
  omega

theorem not_isControl_of_hexDigit? {c : Char} {n : Nat} (h : hexDigit? c = some n) :
    Text.isControl c = false := by
  unfold hexDigit? at h
  split at h
  · rename_i hc
    exact not_isControl_of_le hc (by decide)
  split at h
  · rename_i hc
    exact not_isControl_of_le hc (by decide)
  split at h
  · rename_i hc
    exact not_isControl_of_le hc (by decide)
  · cases h

theorem not_isControl_of_fourDigits? {ds : List Char} {n : Nat} (h : fourDigits? ds = some n) :
    ∀ d ∈ ds, Text.isControl d = false := by
  obtain ⟨a, b, c, d, _, _, _, _, rfl, ha, hb, hc, hd, _⟩ := exists_digits_of_fourDigits? h
  simp [not_isControl_of_hexDigit? ha, not_isControl_of_hexDigit? hb,
    not_isControl_of_hexDigit? hc, not_isControl_of_hexDigit? hd]

theorem not_isControl_of_simpleEscape? {c d : Char} (h : simpleEscape? c = some d) :
    Text.isControl c = false := by
  unfold simpleEscape? at h
  split at h <;> first | rfl | cases h

theorem IsBody.not_isControl {cs : List Char} (h : IsBody cs) :
    ∀ c ∈ cs, Text.isControl c = false := by
  induction h with
  | nil => exact List.forall_mem_nil _
  | raw _ _ hc _ ih => exact List.forall_mem_cons.mpr ⟨hc, ih⟩
  | escape hc _ ih =>
      obtain ⟨d, hd⟩ := Option.isSome_iff_exists.mp hc
      exact List.forall_mem_cons.mpr
        ⟨rfl, List.forall_mem_cons.mpr ⟨not_isControl_of_simpleEscape? hd, ih⟩⟩
  | number hds _ ih =>
      obtain ⟨n, hn⟩ := Option.isSome_iff_exists.mp hds
      refine List.forall_mem_cons.mpr ⟨rfl, List.forall_mem_cons.mpr ⟨rfl, ?_⟩⟩
      exact List.forall_mem_append.mpr ⟨not_isControl_of_fourDigits? hn, ih⟩

theorem readBody_of_readChar {cs rest : List Char} {c : Char} (h : readChar cs = some (c, rest)) :
    readBody cs = (readBody rest).map fun (text, rest) => (c :: text, rest) := by
  rw [readBody]
  · split
    · rename_i h'
      rw [h] at h'
      cases h'
      rfl
    · rename_i h'
      rw [h] at h'
      cases h'
  · -- a quote is no character of a literal
    rintro rest rfl
    cases h

theorem readBody_flatMap (cs s : List Char) :
    readBody (cs.flatMap escapeChar ++ '"' :: s) = some (cs, s) := by
  induction cs with
  | nil => rw [List.flatMap_nil, List.nil_append, readBody]
  | cons c cs ih =>
      rw [List.flatMap_cons, List.append_assoc, readBody_of_readChar (readChar_escapeChar c _), ih]
      rfl

theorem read_quoted {cs : List Char} (h : ∀ cs', cs ≠ '"' :: '"' :: cs') :
    read ('"' :: cs) = readBody cs := by
  rw [read]
  exact h

/-! ## Literals as tokens of a schema document -/

theorem spanQuoted_raw {c : Char} (hq : c ≠ '"') (hb : c ≠ '\\') (hc : Text.isControl c = false)
    (s : List Char) :
    Lexeme.spanQuoted (c :: s)
      = (Lexeme.spanQuoted s).map fun (text, rest) => (c :: text, rest) := by
  have hn : c ≠ '\n' := by
    rintro rfl
    cases hc
  rw [Lexeme.spanQuoted]
  all_goals intros; simp_all

theorem spanQuoted_escape {c : Char} (hn : c ≠ '\n') (s : List Char) :
    Lexeme.spanQuoted ('\\' :: c :: s)
      = (Lexeme.spanQuoted s).map fun (text, rest) => ('\\' :: c :: text, rest) := by
  rw [Lexeme.spanQuoted]
  all_goals intros; simp_all

theorem spanQuoted_hexDigit {c : Char} {n : Nat} (h : hexDigit? c = some n) (s : List Char) :
    Lexeme.spanQuoted (c :: s)
      = (Lexeme.spanQuoted s).map fun (text, rest) => (c :: text, rest) := by
  have hq : c ≠ '"' := by
    rintro rfl
    cases h
  have hb : c ≠ '\\' := by
    rintro rfl
    cases h
  exact spanQuoted_raw hq hb (not_isControl_of_hexDigit? h) s

theorem IsBody.spanQuoted {body : List Char} (h : IsBody body) (s : List Char) :
    Lexeme.spanQuoted (body ++ '"' :: s) = some (body, s) := by
  induction h with
  | nil => rfl
  | raw hq hb hc _ ih => rw [List.cons_append, spanQuoted_raw hq hb hc, ih]; rfl
  | @escape c cs hc _ ih =>
      have hn : c ≠ '\n' := by
        rintro rfl
        cases hc
      rw [List.cons_append, List.cons_append, spanQuoted_escape hn, ih]
      rfl
  | @number ds cs hds _ ih =>
      obtain ⟨n, hn⟩ := Option.isSome_iff_exists.mp hds
      obtain ⟨a, b, c, d, w, x, y, z, rfl, hw, hx, hy, hz, -⟩ := exists_digits_of_fourDigits? hn
      simp only [List.cons_append, List.nil_append]
      rw [spanQuoted_escape (by decide), spanQuoted_hexDigit hw, spanQuoted_hexDigit hx,
        spanQuoted_hexDigit hy, spanQuoted_hexDigit hz, ih]
      rfl

theorem unescape_letter (s : List Char) :
    ∀ e ∈ letters, Lexeme.unescape ('\\' :: e.2 :: s) = (Lexeme.unescape s).map (e.1 :: ·) := by
  simp [letters, Lexeme.unescape]

theorem unescape_escapeChar (c : Char) (s : List Char) :
    Lexeme.unescape (escapeChar c ++ s) = (Lexeme.unescape s).map (c :: ·) := by
  rcases escapeChar_cases c with ⟨d, hd, e⟩ | ⟨ds, hds, hlt, e⟩ | ⟨hq, hb, hc, e⟩
  · rw [e]
    exact unescape_letter s _ hd
  · obtain ⟨a, b, c', d, w, x, y, z, rfl, hw, hx, hy, hz, hn⟩ := exists_digits_of_fourDigits? hds
    rw [e]
    simp only [List.cons_append, List.nil_append, Lexeme.unescape, hw, hx, hy, hz,
      Option.bind_eq_bind, Option.bind_some, hn, Char.ofNat_toNat]
    -- the number is below the surrogates
    rw [if_neg (by omega)]
  · rw [e, List.singleton_append, Lexeme.unescape]
    all_goals intros; simp_all

theorem unescape_flatMap (cs : List Char) : Lexeme.unescape (cs.flatMap escapeChar) = some cs := by
  induction cs with
  | nil => rfl
  | cons c cs ih => rw [List.flatMap_cons, unescape_escapeChar, ih]; rfl

/-- A quote starts a string that ends at the next bare quote, unless it is the first of three. -/
theorem token?_quoted {cs text rest value : List Char} (h : ∀ cs', cs ≠ '"' :: '"' :: cs')
    (hspan : Lexeme.spanQuoted cs = some (text, rest))
    (hvalue : Lexeme.unescape text = some value) :
    Lexeme.token? ('"' :: cs)
      = some (.string (String.ofList value), '"' :: text ++ ['"'], rest) := by
  rw [Lexeme.token?]
  · simp only [hspan, hvalue, Option.bind_eq_bind, Option.bind_some]
  · exact h

/-! ## What follows a literal -/

/-- The two quotes of an empty literal are taken for the start of a text in triple quotes if another
quote follows. -/
def OpensBlock (s r : String) : Prop := s = "" ∧ r.toList.head? = some '"'

theorem toList_write (s : String) :
    (write s).toList = '"' :: s.toList.flatMap escapeChar ++ ['"'] := String.toList_ofList

theorem toList_write_append (s r : String) :
    (write s ++ r).toList = '"' :: (s.toList.flatMap escapeChar ++ '"' :: r.toList) := by
  simp [String.toList_append, toList_write]

/-- No other literal starts with two quotes, since no escape begins with one. -/
theorem opensBlock_iff (s r : String) : OpensBlock s r ↔
    ∃ cs, s.toList.flatMap escapeChar ++ '"' :: r.toList = '"' :: '"' :: cs := by
  rw [OpensBlock, ← String.toList_eq_nil_iff]
  cases s.toList with
  | nil => simp [List.head?_eq_some_iff]
  | cons c cs =>
      refine iff_of_false (fun h => nomatch h.1) ?_
      rintro ⟨cs', h⟩
      rw [List.flatMap_cons, List.append_assoc] at h
      exact escapeChar_append_ne_quote c _ _ h

theorem read_write_iff (s r : String) :
    read (write s ++ r).toList = some (s.toList, r.toList) ↔ ¬ OpensBlock s r := by
  rw [toList_write_append, opensBlock_iff, not_exists]
  refine ⟨fun hread cs hcs => ?_, fun h => ?_⟩
  · rw [hcs, read] at hread
    cases hread
  · rw [read_quoted h, readBody_flatMap]

/-- A text in triple quotes is a longer token than an empty literal. -/
theorem token?_write_iff (s r : String) :
    Lexeme.token? (write s ++ r).toList = some (.string s, (write s).toList, r.toList) ↔
      ¬ OpensBlock s r := by
  refine ⟨fun htoken hopens => ?_, fun h => ?_⟩
  · obtain ⟨cs, hcs⟩ := (opensBlock_iff s r).mp hopens
    rw [toList_write_append, hcs, Lexeme.token?, toList_write, hopens.1] at htoken
    obtain ⟨⟨text, rest⟩, -, htoken⟩ := Option.bind_eq_some_iff.mp htoken
    simp at htoken
  · rw [opensBlock_iff, not_exists] at h
    rw [toList_write_append, token?_quoted h ((isBody_flatMap s.toList).spanQuoted r.toList)
      (unescape_flatMap s.toList), String.ofList_toList, toList_write]

/-- Every text is written as a well-formed literal, without control characters between its quotes.
Whatever follows, the literal is read up to its own closing quote and stands for the text, by the
rules of the query language and in a schema document alike, unless the text is empty and a quote
follows: then the three quotes open a text of another kind. -/
theorem read_write (s r : String) :
    (∃ body, (write s).toList = '"' :: body ++ ['"'] ∧ IsBody body ∧
      ∀ c ∈ body, Text.isControl c = false) ∧
    (read (write s ++ r).toList = some (s.toList, r.toList) ↔ ¬ OpensBlock s r) ∧
    (Lexeme.token? (write s ++ r).toList = some (.string s, (write s).toList, r.toList) ↔
      ¬ OpensBlock s r) :=
  have hbody := isBody_flatMap s.toList
  ⟨⟨_, toList_write s, hbody, hbody.not_isControl⟩, read_write_iff s r, token?_write_iff s r⟩

/-- Before another literal the empty one is not read. -/
theorem read_write_empty :
    read (write "" ++ write "b").toList ≠ some ("".toList, (write "b").toList) ∧
    Lexeme.token? (write "" ++ write "b").toList = none :=
  ⟨fun h => (read_write_iff "" (write "b")).mp h ⟨rfl, by decide⟩, by decide⟩

end Graphwright.StringLiteral
