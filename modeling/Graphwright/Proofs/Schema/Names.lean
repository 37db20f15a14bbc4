import Graphwright.Generation
import Graphwright.Proofs.Registry.Invariants
import Graphwright.Proofs.Request.Word
import Graphwright.Proofs.Text.Words

/-!
# Names of a schema document

The lexer hands out nothing but names as names, and the grammar makes no name up. So whatever a
document defines, of whatever type its fields are, and whatever values its enums have: each is
written as a name of the query language.
-/
namespace Graphwright

namespace Schema

theorem isAscii_of_isName {name : String} (h : IsName name) :
    ∀ c ∈ name.toList, Text.isAscii c = true := by
  have hcontinue : ∀ c, Lexeme.isNameContinue c = true → Text.isAscii c = true := by
    intro c hc
    rcases Bool.or_eq_true_iff.mp hc with hc | hc
    · exact Text.isAscii_of_isAlphanum hc
    · rw [of_decide_eq_true hc]
      decide
  obtain ⟨c, cs, e, hc, hcs⟩ := h
  intro d hd
  rw [e] at hd
  rcases List.mem_cons.mp hd with rfl | hd
  · exact hcontinue d (Lexeme.isNameContinue_of_isNameStart hc)
  · exact hcontinue d (hcs d hd)

/-! ## Lexemes -/

namespace Lexeme

/-- If the lexeme is a name at all, it is one of the query language. -/
def IsNamed (l : Lexeme) : Prop := ∀ text, l.token = .name text → IsName text

theorem number?_ne_name {cs : List Char} {text : String} : number? cs ≠ some (.name text) := by
  intro h
  unfold number? at h
  split at h
  · obtain ⟨⟨negative, n⟩, _, h⟩ := Option.bind_eq_some_iff.mp h
    dsimp only at h
    split at h <;> cases h
  · dsimp only at h
    split at h
    case' h_1 => obtain ⟨_, _, h⟩ := Option.bind_eq_some_iff.mp h
    all_goals
      simp only [Option.bind_eq_bind, Option.bind_some] at h
      split at h
      · split at h
        · cases h
        · obtain ⟨_, _, h⟩ := Option.bind_eq_some_iff.mp h
          cases h
      · obtain ⟨_, _, h⟩ := Option.bind_eq_some_iff.mp h
        cases h

theorem isName_of_token? {cs chars rest : List Char} {text : String}
    (h : token? cs = some (.name text, chars, rest)) : IsName text := by
  unfold token? at h
  split at h
  · cases h
  · obtain ⟨_, _, h⟩ := Option.bind_eq_some_iff.mp h
    cases h
  · obtain ⟨_, _, h⟩ := Option.bind_eq_some_iff.mp h
    obtain ⟨_, _, h⟩ := Option.bind_eq_some_iff.mp h
    cases h
  · cases h
  · rename_i c cs _ _ _
    split at h
    · cases h
    · split at h
      · rename_i hc
        cases h
        exact ⟨c, cs.takeWhile isNameContinue, String.toList_ofList, hc,
          List.all_eq_true.mp List.all_takeWhile⟩
      · split at h
        · obtain ⟨token, htoken, h⟩ := Option.bind_eq_some_iff.mp h
          cases h
          exact absurd htoken number?_ne_name
        · cases h

theorem isNamed_of_mem_read {fuel depth : Nat} {p : Position} {cs : List Char} :
    ∀ l ∈ read fuel depth p cs, l.IsNamed := by
  fun_induction read fuel depth p cs with
  | case5 fuel depth p cs hne token text rest hcs opens closes hdepth depth' next rest' hskip ih =>
      intro l hl
      rcases List.mem_cons.mp hl with rfl | hl
      · rintro name rfl
        exact isName_of_token? hcs
      · exact ih l hl
  | _ =>
      intro l hl name hname
      cases List.mem_singleton.mp hl
      cases hname

theorem isNamed_of_mem_ofText {text : String} : ∀ l ∈ ofText text, l.IsNamed :=
  isNamed_of_mem_read

end Lexeme

/-! ## Grammars -/

namespace Grammar

variable {α β : Type} {P : α → Prop} {Q : β → Prop}

/-- From lexemes whose names are names, `g` reads what satisfies `P` and leaves such lexemes. -/
def Reads (P : α → Prop) (g : Grammar α) : Prop :=
  ∀ ⦃ls x rest⦄, g ls = .ok (x, rest) → (∀ l ∈ ls, l.IsNamed) → P x ∧ ∀ l ∈ rest, l.IsNamed

namespace Reads

theorem pure {x : α} (h : P x) : Reads P (Pure.pure x : Grammar α) := by
  intro ls y rest e hls
  cases e
  exact ⟨h, hls⟩

theorem throw {p : Position} : Reads P (MonadExcept.throw p : Grammar α) := by
  intro ls y rest e
  cases e

theorem bind {g : Grammar α} {f : α → Grammar β} (hg : Reads P g) (hf : ∀ x, P x → Reads Q (f x)) :
    Reads Q (g >>= f) := by
  intro ls y rest e hls
  obtain ⟨⟨x, mid⟩, hx, hy⟩ := Outcome.bind_ok.mp e
  obtain ⟨hP, hmid⟩ := hg hx hls
  exact hf x hP hy hmid

theorem ite {c : Prop} [Decidable c] {g g' : Grammar α} (h : Reads P g) (h' : Reads P g') :
    Reads P (if c then g else g') := by
  split
  · exact h
  · exact h'

/-- An optional `g` before what is read in any case. -/
theorem guarded {c : Prop} [Decidable c] {g : Grammar Unit} {f : Unit → Grammar β}
    (hg : Reads (fun _ => True) g) (hf : ∀ u, Reads Q (f u)) :
    Reads Q (if c then g >>= f else f ()) :=
  .ite (hg.bind fun u _ => hf u) (hf ())

end Reads

theorem reads_get : Reads (fun ls => ∀ l ∈ ls, l.IsNamed) (get : Grammar (List Lexeme)) := by
  intro ls y rest e hls
  cases e
  exact ⟨hls, hls⟩

theorem reads_peek : Reads Lexeme.IsNamed peek :=
  reads_get.bind fun ls hls => .pure <| by
    cases ls with
    | nil => intro text h; cases h
    | cons l ls => exact hls l (List.mem_cons_self ..)

theorem reads_skip : Reads (fun _ => True) skip := by
  intro ls y rest e hls
  cases e
  exact ⟨trivial, fun l hl => hls l (List.mem_of_mem_drop hl)⟩

theorem reads_refuse : Reads P (refuse : Grammar α) :=
  reads_peek.bind fun _ _ => .throw

theorem reads_atPunctuator {c : Char} : Reads (fun _ => True) (atPunctuator c) :=
  reads_peek.bind fun _ _ => .pure trivial

theorem reads_atWord {w : String} : Reads (fun _ => True) (atWord w) :=
  reads_peek.bind fun _ _ => .pure trivial

theorem reads_punctuator {c : Char} : Reads (fun _ => True) (punctuator c) :=
  reads_atPunctuator.bind fun _ _ => .ite reads_skip reads_refuse

theorem reads_word {w : String} : Reads (fun _ => True) (word w) :=
  reads_atWord.bind fun _ _ => .ite reads_skip reads_refuse

theorem reads_name : Reads IsName name := by
  refine reads_peek.bind fun l hl => ?_
  split
  · rename_i text htext
    exact reads_skip.bind fun _ _ => .pure (hl text htext)
  · exact reads_refuse

theorem reads_manyWhile {starts : Token → Bool} {item : Grammar α} (h : Reads P item) :
    (fuel : Nat) → Reads (fun xs => ∀ x ∈ xs, P x) (manyWhile starts item fuel)
  | 0 => .pure (by simp)
  | fuel + 1 => reads_peek.bind fun _ _ => .ite
      (h.bind fun x hx => (reads_manyWhile h fuel).bind fun xs hxs =>
        .pure (by simpa using ⟨hx, hxs⟩))
      (.pure (by simp))

theorem reads_many {starts : Token → Bool} {item : Grammar α} (h : Reads P item) :
    Reads (fun xs => ∀ x ∈ xs, P x) (many starts item) :=
  reads_get.bind fun _ _ => reads_manyWhile h _

theorem reads_many1 {starts : Token → Bool} {item : Grammar α} (h : Reads P item) :
    Reads (fun xs => ∀ x ∈ xs, P x) (many1 starts item) :=
  h.bind fun x hx => (reads_many h).bind fun xs hxs => .pure (by simpa using ⟨hx, hxs⟩)

theorem reads_namesBy {c : Char} : Reads (fun xs => ∀ x ∈ xs, IsName x) (namesBy c) :=
  reads_name.bind fun x hx =>
    (reads_many (reads_skip.bind fun _ _ => reads_name)).bind fun xs hxs =>
      .pure (by simpa using ⟨hx, hxs⟩)

theorem reads_bracketed? {opening closing : Char} {item : Grammar α} (h : Reads P item) :
    Reads (fun o => ∀ x, o = some x → P x) (bracketed? opening closing item) :=
  reads_atPunctuator.bind fun _ _ => .ite
    (reads_skip.bind fun _ _ => h.bind fun x hx => reads_punctuator.bind fun _ _ =>
      .pure (by rintro _ ⟨⟩; exact hx))
    (.pure (by simp))

theorem forall_getD {o : Option (List α)} (h : ∀ xs, o = some xs → ∀ x ∈ xs, P x) :
    ∀ x ∈ o.getD [], P x := by
  cases o with
  | none => simp
  | some xs => exact h xs rfl

theorem reads_description : Reads (fun _ => True) description := by
  refine reads_peek.bind fun l hl => ?_
  split
  · exact reads_skip.bind fun _ _ => .pure trivial
  · exact .pure trivial

theorem reads_value {allowsNames : Bool} :
    (fuel : Nat) → Reads (fun _ => True) (value allowsNames fuel)
  | 0 => reads_refuse
  | fuel + 1 => by
      refine reads_peek.bind fun l hl => ?_
      split
      case h_8 =>
        exact reads_skip.bind fun _ _ => (reads_many (reads_value fuel)).bind fun _ _ =>
          reads_punctuator.bind fun _ _ => .pure trivial
      case h_9 =>
        refine reads_skip.bind fun _ _ => (reads_many (P := fun _ => True) ?_).bind fun _ _ =>
          reads_punctuator.bind fun _ _ => .pure trivial
        exact reads_name.bind fun _ _ => reads_punctuator.bind fun _ _ =>
          (reads_value fuel).bind fun _ _ => .pure trivial
      case h_10 =>
        exact .ite (reads_skip.bind fun _ _ => reads_name.bind fun _ _ => .pure trivial)
          reads_refuse
      case h_11 => exact reads_refuse
      all_goals exact reads_skip.bind fun _ _ => .pure trivial

theorem reads_literal {allowsNames : Bool} : Reads (fun _ => True) (literal allowsNames) :=
  reads_get.bind fun _ _ => reads_value _

theorem reads_directives : Reads (fun _ => True) directives := by
  refine (reads_many (P := fun _ => True) ?_).bind fun _ _ => .pure trivial
  refine reads_skip.bind fun _ _ => reads_name.bind fun _ _ =>
    (reads_bracketed? (reads_many1 (P := fun _ => True) ?_)).bind fun _ _ => .pure trivial
  exact reads_name.bind fun _ _ => reads_punctuator.bind fun _ _ => reads_literal

theorem reads_typeRef : (fuel : Nat) → Reads (fun t => IsName t.baseName) (typeRef fuel)
  | 0 => reads_refuse
  | fuel + 1 => by
      have hcore : ∀ core : TypeRef, IsName core.baseName →
          Reads (fun t => IsName t.baseName) (do
            if ← atPunctuator '!' then
              skip
              return .nonNull core
            else return core) := fun core hcore =>
        reads_atPunctuator.bind fun _ _ =>
          .ite (reads_skip.bind fun _ _ => .pure hcore) (.pure hcore)
      refine reads_atPunctuator.bind fun _ _ => .ite ?_ ?_
      · exact reads_skip.bind fun _ _ => (reads_typeRef fuel).bind fun element helement =>
          reads_punctuator.bind fun _ _ => hcore (.list element) helement
      · exact reads_name.bind fun name hname => hcore (.named name) hname

theorem reads_type : Reads (fun t => IsName t.baseName) type :=
  reads_get.bind fun _ _ => reads_typeRef _

end Grammar

/-! ## Documents -/

def Input.IsNamed (i : Input) : Prop := IsName i.name ∧ IsName i.type.baseName

def Field.IsNamed (f : Field) : Prop :=
  IsName f.name ∧ (∀ i ∈ f.arguments, i.IsNamed) ∧ IsName f.type.baseName

/-- The names of what a definition consists of are names. -/
def Shape.IsNamed : Shape → Prop
  | scalar => True
  | enumeration values => ∀ v ∈ values, IsName v.name
  | union members => ∀ name ∈ members, IsName name
  | inputObject fields => ∀ i ∈ fields, i.IsNamed
  | object interfaces fields => (∀ name ∈ interfaces, IsName name) ∧ ∀ f ∈ fields, f.IsNamed
  | interface fields => ∀ f ∈ fields, f.IsNamed

def Definition.IsNamed (d : Definition) : Prop := IsName d.name ∧ d.shape.IsNamed

namespace Grammar

theorem reads_input : Reads Input.IsNamed input := by
  refine reads_description.bind fun _ _ => reads_name.bind fun name hname =>
    reads_punctuator.bind fun _ _ => reads_type.bind fun type htype =>
      reads_atPunctuator.bind fun _ _ => .ite ?_ ?_
  · exact reads_skip.bind fun _ _ => reads_literal.bind fun _ _ => reads_directives.bind fun _ _ =>
      .pure ⟨hname, htype⟩
  · exact reads_directives.bind fun _ _ => .pure ⟨hname, htype⟩

theorem reads_inputs {opening closing : Char} :
    Reads (fun is => ∀ i ∈ is, i.IsNamed) (inputs opening closing) :=
  (reads_bracketed? (reads_many1 reads_input)).bind fun _ h => .pure (forall_getD h)

theorem reads_field : Reads Field.IsNamed field :=
  reads_description.bind fun _ _ => reads_name.bind fun _ hname =>
    reads_inputs.bind fun _ hargs => reads_punctuator.bind fun _ _ =>
      reads_type.bind fun _ htype => reads_directives.bind fun _ _ => .pure ⟨hname, hargs, htype⟩

theorem reads_fields : Reads (fun fs => ∀ f ∈ fs, f.IsNamed) fields :=
  (reads_bracketed? (reads_many1 reads_field)).bind fun _ h => .pure (forall_getD h)

theorem reads_enumValue : Reads (fun v => IsName v.name) enumValue :=
  reads_description.bind fun _ _ => reads_name.bind fun _ hname =>
    reads_directives.bind fun _ _ => .pure hname

theorem reads_interfaces : Reads (fun names => ∀ n ∈ names, IsName n) interfaces :=
  reads_atWord.bind fun _ _ => .ite
    (reads_skip.bind fun _ _ => reads_atPunctuator.bind fun _ _ =>
      .guarded reads_skip fun _ => reads_namesBy)
    (.pure (by simp))

theorem reads_unionMembers : Reads (fun names => ∀ n ∈ names, IsName n) unionMembers :=
  reads_atPunctuator.bind fun _ _ => .ite
    (reads_skip.bind fun _ _ => reads_atPunctuator.bind fun _ _ =>
      .guarded reads_skip fun _ => reads_namesBy)
    (.pure (by simp))

theorem reads_typeForm : Reads (fun t => IsName t.1 ∧ t.2.1.IsNamed) typeForm := by
  refine reads_peek.bind fun _ _ => ?_
  split
  · exact reads_skip.bind fun _ _ => reads_name.bind fun _ hname =>
      reads_directives.bind fun _ _ => .pure ⟨hname, trivial⟩
  · exact reads_skip.bind fun _ _ => reads_name.bind fun _ hname =>
      reads_interfaces.bind fun _ hinterfaces => reads_directives.bind fun _ _ =>
        reads_fields.bind fun _ hfields => .pure ⟨hname, hinterfaces, hfields⟩
  · exact reads_skip.bind fun _ _ => reads_name.bind fun _ hname =>
      reads_interfaces.bind fun _ _ => reads_directives.bind fun _ _ =>
        reads_fields.bind fun _ hfields => .pure ⟨hname, hfields⟩
  · exact reads_skip.bind fun _ _ => reads_name.bind fun _ hname =>
      reads_directives.bind fun _ _ => reads_unionMembers.bind fun _ hmembers =>
        .pure ⟨hname, hmembers⟩
  · exact reads_skip.bind fun _ _ => reads_name.bind fun _ hname =>
      reads_directives.bind fun _ _ =>
        (reads_bracketed? (reads_many1 reads_enumValue)).bind fun _ hvalues =>
          .pure ⟨hname, forall_getD hvalues⟩
  · exact reads_skip.bind fun _ _ => reads_name.bind fun _ hname =>
      reads_directives.bind fun _ _ => reads_inputs.bind fun _ hfields => .pure ⟨hname, hfields⟩
  · exact reads_refuse

theorem reads_location : Reads (fun _ => True) location := by
  refine reads_peek.bind fun _ _ => ?_
  split
  · exact .ite reads_skip reads_refuse
  · exact reads_refuse

theorem reads_directiveDefinition : Reads (fun _ => True) directiveDefinition := by
  refine reads_word.bind fun _ _ => reads_punctuator.bind fun _ _ => reads_name.bind fun _ _ =>
    reads_inputs.bind fun _ _ => reads_atWord.bind fun _ _ => .guarded reads_skip fun _ => ?_
  refine reads_word.bind fun _ _ => reads_peek.bind fun _ _ => .guarded reads_skip fun _ => ?_
  exact .ite (reads_location.bind fun _ _ =>
    (reads_many (reads_skip.bind fun _ _ => reads_location)).bind fun _ _ => .pure trivial)
    (.pure trivial)

theorem reads_schemaBlock : Reads (fun _ => True) schemaBlock := by
  refine reads_peek.bind fun _ _ => reads_word.bind fun _ _ => reads_directives.bind fun _ _ =>
    reads_punctuator.bind fun _ _ => (reads_many (P := fun _ => True) ?_).bind fun _ _ =>
      reads_punctuator.bind fun _ _ => ?_
  · exact reads_name.bind fun _ _ => reads_punctuator.bind fun _ _ => reads_name.bind fun _ _ =>
      .pure trivial
  · split
    · exact .pure trivial
    · exact .throw

/-- What an entry defines is well named. -/
def Entry.IsNamed : Entry → Prop
  | definition d => d.IsNamed
  | _ => True

theorem reads_extension : Reads Entry.IsNamed extension :=
  reads_word.bind fun _ _ => reads_peek.bind fun _ _ => reads_typeForm.bind fun _ _ =>
    .ite (.pure trivial) .throw

theorem reads_entry : Reads Entry.IsNamed entry := by
  refine reads_atWord.bind fun _ _ => .ite ?_ (reads_atWord.bind fun _ _ => .ite ?_ ?_)
  · exact reads_schemaBlock.bind fun _ _ => .pure trivial
  · exact reads_extension
  · refine reads_description.bind fun _ _ => reads_atWord.bind fun _ _ => .ite ?_ ?_
    · exact reads_directiveDefinition.bind fun _ _ => .pure trivial
    · exact reads_typeForm.bind fun _ h => .pure h

end Grammar

/-- Everything that a document defines is well named. -/
theorem isNamed_of_parse {text : String} {document : Document} {ws : List Warning}
    (h : Document.parse text = .ok (document, ws)) : ∀ d ∈ document.definitions, d.IsNamed := by
  obtain ⟨⟨entries, rest⟩, hentries, h⟩ := Outcome.bind_ok.mp h
  have hnamed := (Grammar.reads_many1 Grammar.reads_entry hentries
    Lexeme.isNamed_of_mem_ofText).1
  cases h
  intro d hd
  obtain ⟨e, he, hd⟩ := List.mem_filterMap.mp hd
  cases e with
  | definition d' => cases hd; exact hnamed _ he
  | _ => cases hd

end Schema

/-! ## Registries -/

theorem registryOfText_ok {home : Namespace} {substitutions : Substitutions} {text : String}
    {r : Registry} {warnings : List Warning}
    (h : registryOfText home substitutions text = .ok (r, warnings)) :
    ∃ document ignored found, Schema.Document.parse text = .ok (document, ignored) ∧
      Registry.build document home substitutions = .ok (r, found) := by
  obtain ⟨⟨document, ignored⟩, hdocument, h⟩ := Outcome.bind_ok.mp h
  obtain ⟨⟨r', found⟩, hr, h⟩ := Outcome.bind_ok.mp h
  cases h
  exact ⟨document, ignored, found, Outcome.mapError_ok.mp hdocument, hr⟩

/-- Every type that a text registers is well named. -/
theorem isNamed_of_registryOfText {home : Namespace} {substitutions : Substitutions}
    {text : String} {r : Registry} {warnings : List Warning}
    (h : registryOfText home substitutions text = .ok (r, warnings)) :
    ∀ t ∈ r.types, t.definition.IsNamed := by
  obtain ⟨document, ignored, found, hdocument, hr⟩ := registryOfText_ok h
  intro t ht
  exact Schema.isNamed_of_parse hdocument t.definition (Registry.definition_mem_of_build hr t ht)

theorem Schema.Shape.IsNamed.of_mem_fieldsOf {shape : Schema.Shape} (h : shape.IsNamed) :
    ∀ f ∈ Registry.fieldsOf shape, f.IsNamed := by
  cases shape with
  | object interfaces fields => exact h.2
  | interface fields => exact h
  | _ => exact List.forall_mem_nil _

/-- Every operation of a text is well named. -/
theorem isNamed_of_operations {home : Namespace} {substitutions : Substitutions} {text : String}
    {r : Registry} {warnings : List Warning}
    (h : registryOfText home substitutions text = .ok (r, warnings)) :
    ∀ k, ∀ f ∈ r.operations k, f.IsNamed := by
  obtain ⟨document, ignored, found, hdocument, hr⟩ := registryOfText_ok h
  intro k f hf
  obtain ⟨d, hd, hf⟩ := Registry.operation_mem_of_build hr k f hf
  exact (Schema.isNamed_of_parse hdocument d hd).2.of_mem_fieldsOf f hf

end Graphwright
