import Graphwright.Generation
import Graphwright.Proofs.Client.Members
import Graphwright.Proofs.Schema.Names
import Graphwright.Proofs.Text.Words

/-!
# Names within an enum

Constants have distinct names, and so have variants. A variant that would have the name of its own
constant gets another one. It is not compared with the constants of other values, though: an enum
has one name for two things exactly if the camel-case spelling of one value is the upper-case
spelling of another.
-/
namespace Graphwright.Client

open Code (Model)

/-! ## Claimed names -/

theorem enumeration_ok {t : RegisteredType} {values : List Schema.EnumValue} {m : Model}
    (h : enumeration t values = .ok m) :
    ∃ dependencies, m = primaryModel t dependencies (.enumeration (values.map enumValue)) ∧
      ((values.map enumValue).map (·.constant)).Nodup ∧
      ((values.map enumValue).map (·.variant)).Nodup := by
  obtain ⟨found, hfound, h⟩ := Outcome.bind_ok.mp h
  cases h
  obtain ⟨rfl, hnames⟩ := enumValues_ok hfound
  exact ⟨_, rfl, hnames.constants.nodup, hnames.variants.nodup⟩

/-! ## Variants and constants -/

/-- A text with a lower-case letter is no constant. -/
theorem ne_constant_of_isLower {v : Schema.EnumValue} (hv : Schema.IsName v.name) {s : String}
    (h : ∃ c ∈ s.toList, c.isLower = true) : s ≠ (enumValue v).constant := by
  rintro rfl
  obtain ⟨c, hc, hlower⟩ := h
  rw [Text.not_isLower_of_mem_shoutyCase (Schema.isAscii_of_isName hv) c hc] at hlower
  cases hlower

theorem variant_eq (v : Schema.EnumValue) : (enumValue v).variant =
    if Text.upperCamelCase v.name = Text.shoutyCase v.name then
      Text.upperCamelCase v.name ++ "Value" else Text.upperCamelCase v.name := by
  simp only [enumValue]

theorem variant_ne_constant_self (v : Schema.EnumValue) :
    (enumValue v).variant ≠ (enumValue v).constant := by
  change (enumValue v).variant ≠ Text.shoutyCase v.name
  rw [variant_eq]
  split
  · rename_i hown
    rw [hown]
    intro h
    have hlength := congrArg String.length h
    rw [String.length_append, show "Value".length = 5 from rfl] at hlength
    omega
  · assumption

/-- No variant has the name of a constant. -/
def NamesApart (values : List Code.EnumValue) : Prop :=
  ∀ v ∈ values, ∀ w ∈ values, v.variant ≠ w.constant

instance (values : List Code.EnumValue) : Decidable (NamesApart values) :=
  inferInstanceAs (Decidable (∀ v ∈ values, ∀ w ∈ values, v.variant ≠ w.constant))

/-- One value is spelled in camel case as the other is in upper case. -/
def SpelledAlike (v w : Schema.EnumValue) : Prop :=
  Text.upperCamelCase v.name = Text.shoutyCase w.name

instance (v w : Schema.EnumValue) : Decidable (SpelledAlike v w) :=
  inferInstanceAs (Decidable (_ = _))

/-- A variant is the constant of another value only by its spelling in camel case, since the longer
name of a variant has lower-case letters. -/
theorem variant_eq_constant_iff {v w : Schema.EnumValue} (hw : Schema.IsName w.name)
    (hne : (enumValue v).constant ≠ (enumValue w).constant) :
    (enumValue v).variant = (enumValue w).constant ↔ SpelledAlike v w := by
  rw [variant_eq]
  split
  · rename_i hown
    have hmem : 'a' ∈ (Text.upperCamelCase v.name ++ "Value").toList := by
      rw [String.toList_append]
      exact List.mem_append_right _ (by decide)
    exact iff_of_false (ne_constant_of_isLower hw ⟨'a', hmem, by decide⟩)
      fun h => hne (hown.symm.trans h)
  · rfl

theorem namesApart_iff {values : List Schema.EnumValue}
    (hn : ∀ v ∈ values, Schema.IsName v.name)
    (hc : ((values.map enumValue).map (·.constant)).Nodup) :
    NamesApart (values.map enumValue) ↔
      ∀ v ∈ values, ∀ w ∈ values, v ≠ w → ¬ SpelledAlike v w := by
  have hinj : ∀ v ∈ values, ∀ w ∈ values, v ≠ w →
      (enumValue v).constant ≠ (enumValue w).constant := by
    intro v hv w hw hne e
    rw [List.map_map] at hc
    exact hne (List.inj_on_of_nodup_map hc hv hw e)
  constructor
  · intro h v hv w hw hne halike
    exact h _ (List.mem_map_of_mem hv) _ (List.mem_map_of_mem hw)
      ((variant_eq_constant_iff (hn w hw) (hinj v hv w hw hne)).mpr halike)
  · intro h v' hv' w' hw'
    obtain ⟨v, hv, rfl⟩ := List.mem_map.mp hv'
    obtain ⟨w, hw, rfl⟩ := List.mem_map.mp hw'
    by_cases e : v = w
    · rw [← e]
      exact variant_ne_constant_self v
    · rw [Ne, variant_eq_constant_iff (hn w hw) (hinj v hv w hw e)]
      exact h v hv w hw e

/-! ## Enums of a schema -/

theorem isName_of_mem_valuesOf {shape : Schema.Shape} (h : shape.IsNamed) :
    ∀ v ∈ valuesOf shape, Schema.IsName v.name := by
  cases shape with
  | enumeration values => exact h
  | _ => simp [valuesOf]

/-- Within the item of every enum of a schema, constants have distinct names and variants have
distinct names. No variant has the name of a constant either, unless one value is spelled in camel
case as another is in upper case. -/
theorem enumerations_names {home : Namespace} {substitutions : Substitutions} {text : String}
    {r : Registry} {warnings : List Warning} {ms : List Model}
    (hr : registryOfText home substitutions text = .ok (r, warnings))
    (h : enumerations r = .ok ms) :
    List.Forall₂ (fun t m => ∃ found, m.artifact = .enumeration found ∧
      found.map (·.wireName) = (valuesOf t.definition.shape).map (·.name) ∧
      (found.map (·.constant)).Nodup ∧ (found.map (·.variant)).Nodup ∧
      (NamesApart found ↔ ∀ v ∈ valuesOf t.definition.shape, ∀ w ∈ valuesOf t.definition.shape,
        v ≠ w → ¬ SpelledAlike v w)) (primary r .enumeration) ms := by
  have hnamed : ∀ t ∈ primary r .enumeration,
      ∀ v ∈ valuesOf t.definition.shape, Schema.IsName v.name := fun t ht =>
    isName_of_mem_valuesOf (isNamed_of_registryOfText hr t (mem_primary.mp ht).1).2
  refine ((List.forall₂_and_left _ _).mpr ⟨hnamed, Outcome.mapM_ok.mp h⟩).imp fun t m ⟨hn, hm⟩ => ?_
  obtain ⟨dependencies, rfl, hconstants, hvariants⟩ := enumeration_ok hm
  refine ⟨_, rfl, ?_, hconstants, hvariants, namesApart_iff hn hconstants⟩
  rw [List.map_map]
  rfl

/-- A schema with one enum, which gets an item. -/
theorem exists_enumeration (text : String) (values : List Schema.EnumValue)
    (h : Outcome.any (registryOfText .default [] text) (fun out =>
      decide ((primary out.1 .enumeration).map (valuesOf ·.definition.shape) = [values])
        && (enumerations out.1).isOk) = true) :
    ∃ r warnings t m, registryOfText .default [] text = .ok (r, warnings) ∧
      primary r .enumeration = [t] ∧ valuesOf t.definition.shape = values ∧
      enumerations r = .ok [m] ∧ enumeration t values = .ok m := by
  obtain ⟨⟨r, warnings⟩, hr, htest⟩ := Outcome.any_eq_true.mp h
  rw [Bool.and_eq_true, decide_eq_true_eq, List.map_eq_singleton_iff] at htest
  obtain ⟨⟨t, ht, rfl⟩, hok⟩ := htest
  obtain ⟨ms, hms⟩ := Outcome.exists_of_isOk hok
  have hall := Outcome.mapM_ok.mp hms
  rw [ht, List.forall₂_cons_left_iff] at hall
  obtain ⟨m, rest, hm, hrest, rfl⟩ := hall
  cases hrest
  exact ⟨r, warnings, t, m, hr, ht, rfl, hms, hm⟩

/-- The values of an enum, of which the first is a single letter. -/
def progressValues : List Schema.EnumValue := [⟨"A", none⟩, ⟨"in_progress", none⟩, ⟨"DONE", none⟩]

def progress : String :=
  "enum Progress { A in_progress DONE } type Query { progress: Progress }"

theorem enumerations_names_progress : ∃ r warnings m found,
    registryOfText .default [] progress = .ok (r, warnings) ∧ enumerations r = .ok [m] ∧
    m.artifact = .enumeration found ∧ found.map (·.wireName) = ["A", "in_progress", "DONE"] ∧
    NamesApart found := by
  obtain ⟨r, warnings, t, m, hr, ht, hvalues, hms, _⟩ :=
    exists_enumeration progress progressValues (by decide +kernel)
  have hnames := enumerations_names hr hms
  rw [ht, List.forall₂_cons, hvalues] at hnames
  obtain ⟨⟨found, hfound, hwire, _, _, hiff⟩, _⟩ := hnames
  exact ⟨r, warnings, m, found, hr, hms, hfound, hwire, hiff.mpr (by decide)⟩

/-- Two values with the letters of one name. -/
def letterValues : List Schema.EnumValue := [⟨"a_b", none⟩, ⟨"AB", none⟩]

def letters : String := "enum E { a_b AB } type Query { e: E }"

/-- The variant of one value can have the name of the constant of another. -/
theorem exists_variant_eq_constant : ∃ r warnings m found,
    registryOfText .default [] letters = .ok (r, warnings) ∧ enumerations r = .ok [m] ∧
    m.artifact = .enumeration found ∧ ¬ NamesApart found := by
  obtain ⟨r, warnings, t, m, hr, _, _, hms, hm⟩ :=
    exists_enumeration letters letterValues (by decide +kernel)
  obtain ⟨dependencies, rfl, _⟩ := enumeration_ok hm
  exact ⟨r, warnings, _, _, hr, hms, rfl, by decide +kernel⟩

end Graphwright.Client
