import Graphwright.Proofs.Client.Calm
import Graphwright.Proofs.Client.Spelling
import Graphwright.Proofs.Execution.Services
import Graphwright.Proofs.Rust.PlainPaths

/-!
# What breaks off a run

A run ends in a client or in a failure that is reported, unless a name has to be spelled that is no
identifier. Names of the query language may consist of underscores and digits, and what is left of
them without the underscores starts with a digit or is empty.
-/
namespace Graphwright

open Text (LeadsWithLetter NoLeadingDigit)

/-! ## Schemas and their items -/

namespace Client

open Rust (IsSpellable)

section

variable {r : Registry} {ms : List Code.Model} (hms : models r = .ok ms)
  (ht : ∀ t ∈ r.types, t.definition.IsNamed) (ho : ∀ k, ∀ f ∈ r.operations k, f.IsNamed)

include hms

/-- What the items of one kind need holds of all types that have one. -/
theorem forall_mem_of_items (part : Part) {P : RegisteredType → Prop}
    (hall : ∀ m ∈ ms, IsSpellable m)
    (hiff : ∀ t ∈ part.subjects r, ∀ m, part.emit r t = .ok m → (IsSpellable m ↔ P t)) :
    ∀ t ∈ part.subjects r, P t := by
  intro t h
  obtain ⟨m, hm, hemit⟩ := exists_item hms part h
  exact (hiff t h m hemit).mp (hall m hm)

include ht ho

theorem spellable_of_models (hall : ∀ m ∈ ms, IsSpellable m) : r.Spellable := by
  have hprimary : ∀ {category}, ∀ t ∈ primary r category, t.definition.IsNamed :=
    fun t h => ht t (mem_primary.mp h).1
  have hscalars : ∀ t ∈ primary r .customScalar, LeadsWithLetter t.name := fun t h =>
    ((isSpellable_primaryModel (hprimary t h).1 _ _).mp
      (hall _ ((mem_models hms).mpr ⟨_, .customScalar h⟩))).1
  have henums := forall_mem_of_items hms .enumeration hall
    fun t h _ hemit => isSpellable_enumeration (hprimary t h) hemit
  have hinputs := forall_mem_of_items hms .inputObject hall
    fun t h _ hemit => isSpellable_inputObject (hprimary t h) hemit
  have hinterfaces := forall_mem_of_items hms .interface hall
    fun t h _ hemit => isSpellable_interface (hprimary t h) hemit
  have hobjects := forall_mem_of_items hms .outputObject hall
    fun t h _ hemit => isSpellable_outputObject (hprimary t h) hemit
  have hbuilders := forall_mem_of_items hms .selectionBuilder hall
    fun t h _ hemit => isSpellable_selectionBuilder (ht t (mem_selectable.mp h).1) hemit
  obtain ⟨m, hm, hemit⟩ := exists_service hms
  obtain ⟨hservice, harguments⟩ := (isSpellable_service ho hemit).mp (hall m hm)
  refine ⟨hservice, fun t htypes hunion hsub => ?_, fun t h => (hbuilders t h).1,
    fun t h => (henums t h).2, fun t h => (hinputs t h).2, fun t h => (hinterfaces t h).2,
    fun t h => (hbuilders t h).2, harguments⟩
  cases hc : t.category with
  | customScalar => exact hscalars t (mem_primary.mpr ⟨htypes, hc, hsub⟩)
  | enumeration => exact (henums t (mem_primary.mpr ⟨htypes, hc, hsub⟩)).1
  | union => exact absurd hc hunion
  | inputObject => exact (hinputs t (mem_primary.mpr ⟨htypes, hc, hsub⟩)).1
  | outputObject => exact (hobjects t (mem_primary.mpr ⟨htypes, hc, hsub⟩)).1
  | interface => exact (hinterfaces t (mem_primary.mpr ⟨htypes, hc, hsub⟩)).1

theorem isSpellable_of_spellable (h : r.Spellable) : ∀ m ∈ ms, IsSpellable m := by
  have hprimary : ∀ {category}, category ≠ .union → ∀ t ∈ primary r category,
      t.definition.IsNamed ∧ LeadsWithLetter t.name := by
    intro category hunion t hmem
    obtain ⟨htypes, rfl, hsub⟩ := mem_primary.mp hmem
    exact ⟨ht t htypes, h.types t htypes hunion hsub⟩
  intro m hm
  obtain ⟨part, hemits⟩ := (mem_models hms).mp hm
  cases hemits with
  | @customScalar t hmem =>
      obtain ⟨hnamed, hletter⟩ := hprimary (by decide) t hmem
      exact (isSpellable_primaryModel hnamed.1 _ _).mpr ⟨hletter, List.forall_mem_nil _⟩
  | @enumeration t _ hmem hemit =>
      obtain ⟨hnamed, hletter⟩ := hprimary (by decide) t hmem
      exact (isSpellable_enumeration hnamed hemit).mpr ⟨hletter, h.values t hmem⟩
  | @inputObject t _ hmem hemit =>
      obtain ⟨hnamed, hletter⟩ := hprimary (by decide) t hmem
      exact (isSpellable_inputObject hnamed hemit).mpr ⟨hletter, h.inputs t hmem⟩
  | @interface t _ hmem hemit =>
      obtain ⟨hnamed, hletter⟩ := hprimary (by decide) t hmem
      exact (isSpellable_interface hnamed hemit).mpr ⟨hletter, h.accessors t hmem⟩
  | @outputObject t _ hmem hemit =>
      obtain ⟨hnamed, hletter⟩ := hprimary (by decide) t hmem
      obtain ⟨htypes, hc, _⟩ := mem_primary.mp hmem
      have hsel : t ∈ selectable r := mem_selectable.mpr ⟨htypes, Or.inl hc⟩
      exact (isSpellable_outputObject hnamed hemit).mpr
        ⟨hletter, fun f hf => (h.fields t hsel f hf).1⟩
  | @selectionBuilder t _ hmem hemit =>
      exact (isSpellable_selectionBuilder (ht t (mem_selectable.mp hmem).1) hemit).mpr
        ⟨h.builders t hmem, h.fields t hmem⟩
  | service hemit => exact (isSpellable_service ho hemit).mpr ⟨h.service, h.arguments⟩

end

end Client

/-! ## Runs -/

/-- No keyword stands where the paths of a client start that makes them types of another form. -/
def Namespace.StartsPaths (home : Namespace) : Prop :=
  ∀ first ∈ home.segments.head?, first ∉ Rust.TypeText.typeKeywords

instance (home : Namespace) : Decidable home.StartsPaths :=
  inferInstanceAs (Decidable (∀ first ∈ home.segments.head?, first ∉ Rust.TypeText.typeKeywords))

theorem writable_of_spellable {home : Namespace} {r : Registry} {ms : List Code.Model}
    (hr : r.WellFormed home) (hhome : home.StartsPaths) (hms : Client.models r = .ok ms)
    (ht : ∀ t ∈ r.types, t.definition.IsNamed) (hall : ∀ m ∈ ms, Rust.IsSpellable m) :
    ∀ m ∈ ms, Rust.Writable home m := by
  intro m hm
  obtain ⟨part, hemits⟩ := (Client.mem_models hms).mp hm
  obtain ⟨hfile, hnames⟩ := hall m hm
  refine ⟨⟨?_, hfile, hnames _ (List.mem_append_left _ List.mem_cons_self)⟩, hnames, ?_⟩
  · have hfolder : m.folder = [Client.typesFolder] ∨ m.folder = [] := by
      rcases hemits.placed with h | ⟨_, h, _⟩ | ⟨_, h, _⟩
      · exact Or.inl h.folder
      · exact Or.inr h
      · exact Or.inr h
    rcases hfolder with h | h
    · rw [h]
      exact List.forall_mem_singleton.mpr (by decide)
    · rw [h]
      exact List.forall_mem_nil _
  · -- An interface is called by its path, so what is printed for it has to be read as a path again.
    intro imports himports properties methods conformances hartifact c hc type htype
    obtain ⟨t, hmem, hpath⟩ := (hemits.isCovered.interfaces c.interface (by
      rw [hartifact]
      exact List.mem_map_of_mem hc)).2
    have htypes : t ∈ r.types := (Client.mem_primary.mp hmem).1
    rw [← hpath, hr.path t htypes] at htype
    exact Rust.Imports.form_of_typePath (Schema.isPlain_of_isName (ht t htypes).1) hhome himports
      htype

/-- Whatever schema is read from the text can be spelled. -/
def Options.Spells (options : Options) (text : String) : Prop :=
  ∀ r warnings, registryOfText options.home options.substitutions text = .ok (r, warnings) →
    r.Spellable

/-- A client is generated only for a schema that can be spelled. For such a schema, no run is broken
off, unless the paths of the client start with a keyword. -/
theorem generate_spells (options : Options) (text : String) :
    (∀ out, generate options text = .ok out → options.Spells text) ∧
      (options.Spells text → options.home.StartsPaths → Calm (generate options text)) := by
  constructor
  · rintro ⟨files, warnings⟩ h r ignored hr
    obtain ⟨backend, _, h⟩ := Outcome.bind_ok.mp h
    obtain ⟨⟨r', _⟩, hr', h⟩ := Outcome.bind_ok.mp h
    cases hr.symm.trans hr'
    obtain ⟨ms, hms, h⟩ := Outcome.bind_ok.mp h
    obtain ⟨rendered, hrendered, _⟩ := Outcome.bind_ok.mp h
    exact Client.spellable_of_models hms (isNamed_of_registryOfText hr) (isNamed_of_operations hr)
      (Backend.canSpell_of_render hrendered)
  · intro hspells hhome
    refine calm_generate fun r warnings ms hr hms backend => ?_
    obtain ⟨document, _, found, _, hbuild⟩ := registryOfText_ok hr
    have hw := Registry.wellFormed_of_build hbuild
    have ht := isNamed_of_registryOfText hr
    have hall := Client.isSpellable_of_spellable hms ht (isNamed_of_operations hr)
      (hspells r warnings hr)
    rw [hw.home_eq]
    exact Backend.calm_render (writable_of_spellable hw hhome hms ht hall) backend

/-- What is left of the value without the underscore is a digit. -/
def numberedValue : String := "enum E \x7b _1 \x7d type Query \x7b a: Int \x7d"

theorem not_calm_numberedValue : ¬ Calm (generate .standard numberedValue) := by
  rw [calm_iff]
  decide +kernel

theorem generate_spells_people :
    Options.standard.Spells Execution.people ∧ ¬ Options.standard.Spells numberedValue := by
  obtain ⟨out, hout⟩ := Execution.peopleClient
  refine ⟨(generate_spells .standard Execution.people).1 out hout, fun h => ?_⟩
  exact not_calm_numberedValue ((generate_spells .standard numberedValue).2 h (by decide))

/-- Some schema is neither turned into a client nor refused. -/
theorem exists_generate_aborts :
    ∃ f, generate .standard numberedValue = .error f ∧ f.isAbort = true := by
  have h := not_calm_numberedValue
  simp only [Calm, not_forall, Bool.not_eq_false] at h
  obtain ⟨f, hf, habort⟩ := h
  exact ⟨f, hf, habort⟩

end Graphwright
