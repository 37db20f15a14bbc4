import Graphwright.Proofs.Client.Uses
import Graphwright.Proofs.Rust.Namespaces
import Graphwright.Proofs.Rust.ShortNames
import Graphwright.Rust.ModuleIndex

/-!
# Reserved words

A name that is escaped is spelled as no reserved word. Of the names that are taken as they are,
constants have no lower-case letter, no reserved word ends like a marker, and the variants of an
enum start with no lower-case letter, which leaves one word: `Self`. Main statement: the names in
the file of an item are free of reserved words exactly if no value of an enum is spelled like that
in camel case, and no path of a hand-written item ends in a reserved word. The names in module
indexes always are.
-/
namespace Graphwright

namespace Rust

/-! ## Words -/

/-- The words that stand for themselves in no program, those among them that have no meaning yet. -/
def reservedWords : List String :=
  ["as", "async", "await", "break", "const", "continue", "crate", "dyn", "else", "enum", "extern",
    "false", "fn", "for", "if", "impl", "in", "let", "loop", "match", "mod", "move", "mut", "pub",
    "ref", "return", "self", "Self", "static", "struct", "super", "trait", "true", "type", "unsafe",
    "use", "where", "while",
    "abstract", "become", "box", "do", "final", "gen", "macro", "override", "priv", "try", "typeof",
    "unsized", "virtual", "yield"]

/-- The reserved words that are not allowed as raw identifiers. -/
def placeWords : List String := ["crate", "self", "Self", "super"]

/-- The identifier is spelled as a reserved word. -/
def Ident.IsReserved (i : Ident) : Prop :=
  i.name ∈ if i.isRaw then placeWords else reservedWords

instance (i : Ident) : Decidable i.IsReserved := inferInstanceAs (Decidable (_ ∈ _))

namespace Ident

/-- A name that is taken as it is is reserved if it is a reserved word, since what is written as a
raw identifier is one that may be. -/
theorem isReserved_iff {n : String} {i : Ident} (h : ofName n = .ok i) :
    i.IsReserved ↔ n ∈ reservedWords := by
  unfold ofName at h
  split at h
  · rename_i cs hraw
    split at h
    · rename_i hplace
      cases h
      have hfree : ¬ (Ident.mk (String.ofList cs) true).IsReserved := fun hmem =>
        hplace.2 ((by decide : ∀ w ∈ placeWords, w ∈ pathKeywords) _ hmem)
      have hwords : ∀ w ∈ reservedWords, rawName? w = none := by decide
      refine iff_of_false hfree fun hmem => ?_
      rw [hwords n hmem] at hraw
      cases hraw
    · cases h
  · split at h
    · cases h
      rfl
    · cases h

theorem not_isReserved_of_escaped {n : String} {i : Ident} (h : escaped n = .ok i) :
    ¬ i.IsReserved := by
  unfold escaped at h
  split at h
  · rename_i hplace
    rw [isReserved_iff h]
    exact (by decide : ∀ k ∈ pathKeywords, k ++ "_" ∉ reservedWords) n hplace
  · rename_i hplace
    split at h
    · rename_i hraw
      rw [isReserved_iff h]
      exact (by decide : ∀ k ∈ rawKeywords, "r#" ++ k ∉ reservedWords) n hraw
    · rename_i hraw
      rw [isReserved_iff h]
      have hwords : ∀ w ∈ reservedWords, w ∈ pathKeywords ∨ w ∈ rawKeywords := by decide
      exact fun hmem => (hwords n hmem).elim hplace hraw

end Ident

/-- All reserved words but one start with a lower-case letter. -/
theorem eq_self_of_isCapital {w : String} (h : w ∈ reservedWords) (hc : Text.IsCapital w) :
    w = "Self" :=
  (by decide : ∀ w ∈ reservedWords, Text.IsCapital w → w = "Self") w h hc

theorem marker_not_mem_reservedWords (m : Code.Model) : Imports.markerName m ∉ reservedWords := by
  have hwords : ∀ w ∈ reservedWords, w.toList.getLast? ≠ some 'g' := by decide
  intro hmem
  refine hwords _ hmem ?_
  rw [Imports.markerName, String.toList_append, List.getLast?_append_of_ne_nil _ (by decide)]
  decide

theorem shoutyCase_not_mem_reservedWords (s : String) : Text.shoutyCase s ∉ reservedWords := by
  have hwords : ∀ w ∈ reservedWords, w.toList.any Char.isLower = true := by decide
  intro hmem
  obtain ⟨c, hc, hlower⟩ := List.any_eq_true.mp (hwords _ hmem)
  rw [Text.not_isLower_shoutyCase s c hc] at hlower
  cases hlower

end Rust

/-! ## Names that are taken as they are -/

/-- The values of an enum. -/
def Code.Artifact.values : Code.Artifact → List Code.EnumValue
  | .enumeration values => values
  | _ => []

namespace Client

open Code (Model)
open Rust (reservedWords)

theorem wireName_enumValue (v : Schema.EnumValue) : (enumValue v).wireName = v.name := rfl

theorem variant_mem_reservedWords_iff (v : Schema.EnumValue) :
    (enumValue v).variant ∈ reservedWords ↔ Text.upperCamelCase v.name = "Self" := by
  have hcapital := Text.isCapital_upperCamelCase v.name
  rw [variant_eq]
  split
  · -- a variant that is lengthened would have the spelling of a constant
    rename_i hconstant
    refine iff_of_false (fun hmem => ?_) fun hself => ?_
    · have hlast := congrArg (·.toList.getLast?)
        (Rust.eq_self_of_isCapital hmem (hcapital.append (by decide)))
      rw [String.toList_append, List.getLast?_append_of_ne_nil _ (by decide)] at hlast
      exact absurd hlast (by decide)
    · refine Rust.shoutyCase_not_mem_reservedWords v.name ?_
      rw [← hconstant, hself]
      decide
  · constructor
    · exact fun hmem => Rust.eq_self_of_isCapital hmem hcapital
    · intro hself
      rw [hself]
      decide

/-- No value is spelled as the name by which an item calls itself. -/
def AvoidsSelf (m : Model) : Prop :=
  ∀ v ∈ m.artifact.values, Text.upperCamelCase v.wireName ≠ "Self"

instance (m : Model) : Decidable (AvoidsSelf m) := inferInstanceAs (Decidable (∀ v ∈ _, _))

theorem UsedBy.not_mem_reservedWords {m : Model} {n : String} (h : UsedBy m (.asIs n))
    (hself : AvoidsSelf m) : n ∉ reservedWords := by
  cases h with
  | uses h =>
      cases h with
      | constant hn => exact hn ▸ Rust.shoutyCase_not_mem_reservedWords _
  | marker _ hn => exact hn ▸ Rust.marker_not_mem_reservedWords m
  | variant hartifact hv hn =>
      have hwire := hself (enumValue _) (by rw [hartifact]; exact hv)
      rw [wireName_enumValue] at hwire
      rwa [hn, variant_mem_reservedWords_iff]

theorem Emits.exists_enumValue {r : Registry} {part : Part} {m : Model} (h : Emits r part m) :
    ∀ v ∈ m.artifact.values, ∃ w, v = enumValue w := by
  have hpart := h.part_eq
  cases hartifact : m.artifact with
  | enumeration values =>
      rw [hartifact, partOf] at hpart
      subst hpart
      cases h with
      | enumeration _ h =>
          obtain ⟨found, hfound, h⟩ := Outcome.bind_ok.mp h
          cases h
          obtain rfl := Code.Artifact.enumeration.inj hartifact
          obtain ⟨rfl, _⟩ := enumValues_ok hfound
          exact List.forall_mem_map.mpr fun w _ => ⟨w, rfl⟩
  | _ => exact List.forall_mem_nil _

end Client

/-! ## Items -/

namespace Rust

open Client (AvoidsSelf)

def Mention.ident : Mention → Ident
  | .method i => i
  | .name i => i

/-- No name that the item mentions is reserved, and of those in its types only `Self` is. -/
structure Item.AvoidsKeywords (item : Item) : Prop where
  mentions : ∀ mention ∈ item.mentions, ¬ mention.ident.IsReserved
  types : item.Within fun i => i.IsReserved → i = .plain "Self"

theorem not_isReserved_of_accounted {uses : List Code.Use} {mention : Mention}
    (h : Accounted uses mention) (huses : ∀ n, .asIs n ∈ uses → n ∉ reservedWords) :
    ¬ mention.ident.IsReserved := by
  cases h with
  | method _ h => exact Ident.not_isReserved_of_escaped h
  | own hn => exact (by decide : ∀ n ∈ ownMethods, ¬ (Ident.plain n).IsReserved) _ hn
  | escaped h => exact Ident.not_isReserved_of_escaped h
  | asIs hn h => exact (Ident.isReserved_iff h).not.mpr (huses _ hn)

/-- An item that is defined is mentioned. -/
theorem Item.mentions_of_defines {item : Item} {i : Ident} (h : i ∈ item.defines) :
    .name i ∈ item.mentions := by
  cases item with
  | use _ _ _ => cases h
  | module _ _ => exact List.mem_map_of_mem h
  | enumeration _ _ _ _ =>
      cases List.mem_singleton.mp h
      exact List.mem_cons_self
  | record _ _ _ param _ =>
      rcases List.mem_cons.mp h with rfl | h
      · exact List.mem_cons_self
      · refine List.mem_cons_of_mem _ (List.mem_append_left _ ?_)
        cases param with
        | none => cases h
        | some param =>
            cases List.mem_singleton.mp h
            exact List.mem_singleton_self _
  | trait _ _ _ =>
      cases List.mem_singleton.mp h
      exact List.mem_cons_self
  | implementation param _ _ _ =>
      refine List.mem_append_left _ ?_
      cases param with
      | none => cases h
      | some param =>
          cases List.mem_singleton.mp h
          exact List.mem_singleton_self _
  | typeAlias _ _ _ =>
      cases List.mem_singleton.mp h
      exact List.mem_singleton_self _

namespace Imports

variable {imports : Imports} {m : Code.Model} {items : List Item}

theorem mention_of_variant (h : imports.declarations m = .ok items) {v : Code.EnumValue}
    (hv : v ∈ m.artifact.values) :
    ∃ i, Ident.ofName v.variant = .ok i ∧ .name i ∈ items.flatMap (·.mentions) := by
  obtain ⟨name, _, h⟩ := Outcome.bind_ok.mp h
  split at h <;> rename_i hartifact <;> rw [hartifact] at hv
  case h_2 values =>
    obtain ⟨variants, hvariants, h⟩ := Outcome.bind_ok.mp h
    obtain ⟨members, _, h⟩ := Outcome.bind_ok.mp h
    obtain ⟨toWire, _, h⟩ := Outcome.bind_ok.mp h
    obtain ⟨fromWire, _, h⟩ := Outcome.bind_ok.mp h
    cases h
    obtain ⟨variant, hvariant, hemit⟩ := Outcome.exists_of_mapM hvariants hv
    obtain ⟨i, hi, hemit⟩ := Outcome.bind_ok.mp hemit
    cases hemit
    exact ⟨i, hi, List.mem_flatMap.mpr ⟨_, List.mem_cons_self,
      List.mem_cons_of_mem _ (List.mem_map_of_mem hvariant)⟩⟩
  all_goals cases hv

/-- What the items of an emitted item mention is reserved only if a value is spelled `Self`. -/
theorem mentions_avoid_iff {r : Registry} {part : Client.Part} (hemits : Client.Emits r part m)
    (h : imports.declarations m = .ok items) :
    (∀ item ∈ items, ∀ mention ∈ item.mentions, ¬ mention.ident.IsReserved) ↔ AvoidsSelf m := by
  have hflat := List.forall_mem_flatMap (f := Item.mentions) (l := items)
    (p := fun mention => ¬ mention.ident.IsReserved)
  refine hflat.symm.trans ?_
  constructor
  · intro havoids v hv hself
    obtain ⟨w, rfl⟩ := hemits.exists_enumValue v hv
    obtain ⟨i, hi, hmem⟩ := mention_of_variant h hv
    rw [Client.wireName_enumValue, ← Client.variant_mem_reservedWords_iff,
      ← Ident.isReserved_iff hi] at hself
    exact havoids _ hmem hself
  · intro hself mention hmem
    exact not_isReserved_of_accounted (imports.accounts_declarations h mention hmem)
      fun n hn => (hemits.usedBy _ hn).not_mem_reservedWords hself

/-! ### Imported names -/

section Tracks

variable {base : List String} {ownPath : String} {own : Ident} {paths : List String}

theorem mention_mem_items {mention : Mention} : mention ∈ imports.items.flatMap (·.mentions) ↔
    ∃ i ∈ imports.items.flatMap Item.brings, mention = .name i := by
  have hitem : ∀ item ∈ imports.items, item.mentions = item.brings.map .name := by
    intro item hitem
    obtain ⟨path, names, rfl⟩ := imports.exists_use_of_mem_items hitem
    rfl
  rw [List.flatMap_congr hitem, ← List.map_flatMap, List.mem_map]
  exact exists_congr fun i => and_congr_right fun _ => eq_comm

theorem runtime_not_mem_reservedWords (item : Code.RuntimeItem) : item.name ∉ reservedWords :=
  (by decide : ∀ item ∈ Code.RuntimeItem.all, item.name ∉ reservedWords) item
    (Code.RuntimeItem.mem_all item)

theorem Tracks.items_avoid_iff (h : imports.Tracks base ownPath own paths) :
    (∀ item ∈ imports.items, ∀ mention ∈ item.mentions, ¬ mention.ident.IsReserved) ↔
      ∀ path i, imports.Shortens ownPath path i → i.name ∉ reservedWords := by
  have hflat := List.forall_mem_flatMap (f := Item.mentions) (l := imports.items)
    (p := fun mention => ¬ mention.ident.IsReserved)
  refine hflat.symm.trans ?_
  constructor
  · intro havoid path i hshort
    have hmem : .name i ∈ imports.items.flatMap (·.mentions) := mention_mem_items.mpr
      ⟨i, mem_items_brings.mpr (.inr (h.mem_uses.mpr ⟨path, hshort⟩)), rfl⟩
    have hfree := havoid _ hmem
    obtain ⟨_, tail, _, rfl⟩ := h.shortens_iff.mp hshort
    exact hfree
  · rintro havoid mention hmem
    obtain ⟨i, hi, rfl⟩ := mention_mem_items.mp hmem
    rcases mem_items_brings.mp hi with ⟨item, _, rfl⟩ | huse
    · exact runtime_not_mem_reservedWords item
    · obtain ⟨path, hshort⟩ := h.mem_uses.mp huse
      have hfree := havoid path i hshort
      obtain ⟨_, tail, _, rfl⟩ := h.shortens_iff.mp hshort
      exact hfree

end Tracks

/-- The table of a file starts with no reserved word but `Self`. -/
theorem not_mem_startNames_of_reserved (hm : IsItemName m) (imports : Imports) {n : String}
    (hn : n ∈ reservedWords) (hself : n ≠ "Self") : n ∉ imports.startNames (definedNames m) := by
  rw [startNames, List.mem_append, List.mem_append, definedNames_eq, List.mem_cons,
    mem_definedNames_tail, List.mem_map]
  rintro ((hmem | rfl | ⟨rfl, _⟩) | ⟨item, _, rfl⟩)
  · exact hself ((by decide : ∀ w ∈ reservedWords, w ∈ reservedNames → w = "Self") n hn hmem)
  · exact hself (eq_self_of_isCapital hn hm.capital)
  · exact marker_not_mem_reservedWords m hn
  · exact runtime_not_mem_reservedWords item hn

/-- A path whose last segment can be imported, though it is a reserved word. -/
def EndsReserved (path : String) : Prop :=
  ∃ tail, importableTail? path = some tail ∧ tail ∈ reservedWords ∧ tail ≠ "Self"

/-- A path is shortened to a reserved word only if it ends in one. -/
theorem shortens_avoid_iff {home : Namespace} (hm : IsItemName m)
    (himports : Imports.of m (itemPath home m) (definedNames m) = .ok imports) :
    (∀ path i, imports.Shortens (itemPath home m) path i → i.name ∉ reservedWords) ↔
      ∀ p ∈ m.dependencies.artifacts, p ≠ itemPath home m → ¬ EndsReserved p := by
  obtain ⟨_, _, _, htracks, hsub, hknows, _⟩ := Imports.of_ok himports
  have hbase : ∀ n ∈ reservedWords.filter (· ≠ "Self"),
      n ∉ imports.startNames (definedNames m) := by
    intro n hn
    obtain ⟨hn, hself⟩ := List.mem_filter.mp hn
    exact not_mem_startNames_of_reserved hm imports hn (of_decide_eq_true hself)
  refine Iff.trans ?_ ((htracks.avoids_iff hsub hknows hbase).trans ?_)
  · -- the prelude's `Self` is never given to anything else
    refine forall₃_congr fun path i hshort => not_congr ?_
    have hne : i.name ≠ "Self" := by
      intro hself
      refine htracks.not_mem_base hshort ?_
      rw [hself, startNames, List.append_assoc]
      exact List.mem_append_left _ (by decide)
    rw [List.mem_filter, decide_eq_true hne, and_iff_left rfl]
  · refine forall₃_congr fun p _ _ => ?_
    simp only [EndsReserved, List.mem_filter, decide_eq_true_eq, not_exists, not_and]

/-- Types are made of names that are no reserved words, if no path is shortened to one. -/
theorem coveredBy_of_shortens {home : Namespace}
    (himports : Imports.of m (itemPath home m) (definedNames m) = .ok imports)
    (hshort : ∀ path i, imports.Shortens (itemPath home m) path i → i.name ∉ reservedWords) :
    imports.CoveredBy fun i => i.IsReserved → i = .plain "Self" := by
  obtain ⟨own, _, hown, htracks, _⟩ := Imports.of_ok himports
  refine ⟨by decide, by decide, by decide, ?_, ?_⟩
  · exact fun item _ hreserved => absurd hreserved (runtime_not_mem_reservedWords item)
  · intro path type htype
    rcases htracks.typeAt_cases htype with ⟨_, rfl⟩ | ⟨hmem, tail, htail, rfl⟩ | ⟨_, _, rfl⟩
    · exact ⟨fun hreserved => absurd hreserved (Ident.not_isReserved_of_escaped hown), trivial⟩
    · have hfree := hshort path _ (htracks.shortens_iff.mpr ⟨hmem, tail, htail, rfl⟩)
      exact ⟨fun hreserved => absurd hreserved hfree, trivial⟩
    · trivial

/-- What a file imports, and the types in it, are free of reserved words exactly if no path that the
item depends on ends in one. -/
theorem avoidsKeywords_iff {home : Namespace} {r : Registry} {part : Client.Part}
    (hm : IsItemName m) (hemits : Client.Emits r part m)
    (himports : Imports.of m (itemPath home m) (definedNames m) = .ok imports)
    (h : imports.declarations m = .ok items) :
    (∀ item ∈ imports.items ++ items, item.AvoidsKeywords) ↔
      AvoidsSelf m ∧ ∀ p ∈ m.dependencies.artifacts, p ≠ itemPath home m → ¬ EndsReserved p := by
  obtain ⟨_, _, _, htracks, _⟩ := Imports.of_ok himports
  rw [← mentions_avoid_iff hemits h, ← shortens_avoid_iff hm himports, ← htracks.items_avoid_iff]
  constructor
  · exact fun havoid =>
      ⟨fun item hitem => (havoid item (List.mem_append_right _ hitem)).mentions,
        fun item hitem => (havoid item (List.mem_append_left _ hitem)).mentions⟩
  · rintro ⟨hitems, himported⟩
    have hcovered := coveredBy_of_shortens himports (htracks.items_avoid_iff.mp himported)
    have htypes := hcovered.declarations h fun item hitem i hi hreserved =>
      absurd hreserved (hitems item hitem _ (Item.mentions_of_defines hi))
    exact List.forall_mem_append.mpr
      ⟨fun item hitem => ⟨himported item hitem, imports.items_within item hitem⟩,
        fun item hitem => ⟨hitems item hitem, htypes item hitem⟩⟩

/-! ### Paths of generated items -/

theorem importableTail?_joinPath {front : List String} {last : String} (hfront : front ≠ [])
    (h : ∀ s ∈ front ++ [last], plainSegments?.isPlain s = true) :
    importableTail? (joinPath (front ++ [last])) = some last := by
  have hmany : 1 < (front ++ [last]).length := by
    have hpos := List.length_pos_of_ne_nil hfront
    simpa using hpos
  rw [importableTail?, plainSegments?_joinPath hmany h]
  exact List.getLast?_concat ..

theorem not_endsReserved_joinPath {front : List String} {last : String} (hfront : front ≠ [])
    (h : ∀ s ∈ front ++ [last], plainSegments?.isPlain s = true) (hlast : Text.IsCapital last) :
    ¬ EndsReserved (joinPath (front ++ [last])) := by
  rintro ⟨tail, htail, hmem, hself⟩
  rw [importableTail?_joinPath hfront h] at htail
  cases htail
  exact hself (eq_self_of_isCapital hmem hlast)

/-- No path of a generated item ends in a reserved word. -/
theorem not_endsReserved_generated (home : Namespace) {name : String} (h : Schema.IsName name) :
    ¬ EndsReserved (home.typePath name) ∧ ¬ EndsReserved (home.selectionPath name) := by
  have hhome : ∀ s ∈ home.segments, plainSegments?.isPlain s = true := fun s hs =>
    isPlain_of_isPlainIdentifier (home.isPlainIdentifier_segments s hs)
  have hcapital := Text.isCapital_capitalize (Schema.isAscii_of_isName h)
  have htype : ∀ s ∈ (home.segments ++ ["types"]) ++ [Text.capitalize name],
      plainSegments?.isPlain s = true := by
    simp only [List.forall_mem_append, List.forall_mem_singleton]
    exact ⟨⟨hhome, by decide⟩, isPlainSegment_capitalize h⟩
  have hbuilder : ∀ s ∈ home.segments ++ [Text.capitalize name ++ "FieldSelection"],
      plainSegments?.isPlain s = true := by
    simp only [List.forall_mem_append, List.forall_mem_singleton]
    exact ⟨hhome, isPlain_of_isPlainIdentifier (isMember_builder h).1⟩
  rw [home.typePath_eq, home.selectionPath_eq]
  have hsplit : home.segments ++ ["types", Text.capitalize name] =
      (home.segments ++ ["types"]) ++ [Text.capitalize name] := by
    rw [List.append_assoc]
    rfl
  rw [hsplit]
  exact ⟨not_endsReserved_joinPath (by simp) htype hcapital,
    not_endsReserved_joinPath home.segments_ne_nil hbuilder (hcapital.append (by decide))⟩

/-- A path that ends in a reserved word has been written by hand. -/
theorem exists_substitution {home : Namespace} {r : Registry} (hr : r.WellFormed home)
    (hnamed : ∀ t ∈ r.types, Schema.IsName t.name) {path : String} (h : Client.IsItemPath r path)
    (hends : EndsReserved path) : ∃ t ∈ r.types, t.substitution = some path := by
  have hgenerated : ∀ t ∈ r.types, t.generatedPath ≠ path := by
    rintro t ht rfl
    rw [hr.path t ht] at hends
    exact (not_endsReserved_generated home (hnamed t ht)).1 hends
  rcases h with (⟨t, ht, _, hpath⟩ | ⟨t, ht, rfl⟩) | ⟨t, ht, hpath⟩
  · refine ⟨t, ht, ?_⟩
    cases hs : t.substitution with
    | none =>
        rw [RegisteredType.artifactPath, hs] at hpath
        exact absurd hpath (hgenerated t ht)
    | some written =>
        rw [RegisteredType.artifactPath, hs] at hpath
        exact congrArg some hpath
  · have htypes := (Client.mem_selectable.mp ht).1
    exact absurd hends (not_endsReserved_generated r.home (hnamed t htypes)).2
  · exact absurd hpath (hgenerated t (Client.mem_primary.mp ht).1)

end Imports

/-! ## Module indexes -/

theorem avoidsKeywords_of_index {folder : Folder} {items : List Item}
    (h : folder.declarations = .ok items) : ∀ item ∈ items, item.AvoidsKeywords := by
  obtain ⟨children, hchildren, h⟩ := Outcome.bind_ok.mp h
  obtain ⟨exported, hexported, h⟩ := Outcome.bind_ok.mp h
  cases h
  have hmodule : ∀ {isPublic name i}, Ident.escaped name = .ok i →
      (Item.module isPublic i).AvoidsKeywords := fun hi =>
    ⟨List.forall_mem_singleton.mpr (Ident.not_isReserved_of_escaped hi), trivial⟩
  refine List.forall_mem_append.mpr ⟨fun item hitem => ?_, fun item hitem => ?_⟩
  · obtain ⟨child, _, hchild⟩ := (Outcome.mem_mapM hchildren).mp hitem
    obtain ⟨i, hi, hchild⟩ := Outcome.bind_ok.mp hchild
    cases hchild
    exact hmodule hi
  · obtain ⟨pair, hpair, hitem⟩ := List.mem_flatten.mp hitem
    obtain ⟨e, _, he⟩ := (Outcome.mem_mapM hexported).mp hpair
    obtain ⟨file, hfile, he⟩ := Outcome.bind_ok.mp he
    obtain ⟨i, hi, he⟩ := Outcome.bind_ok.mp he
    cases he
    rcases List.mem_cons.mp hitem with rfl | hitem
    · exact hmodule hfile
    · cases List.mem_singleton.mp hitem
      exact ⟨List.forall_mem_singleton.mpr (Ident.not_isReserved_of_escaped hi), trivial⟩

/-- Whatever a client is made of, no name in its files is a reserved word, unless a value of an enum
is spelled `Self` in camel case or an item depends on a hand-written one whose path ends in a
reserved word. -/
theorem models_avoidKeywords {home : Namespace} {substitutions : Substitutions} {text : String}
    {r : Registry} {warnings : List Warning} {ms : List Code.Model}
    (hr : registryOfText home substitutions text = .ok (r, warnings))
    (hms : Client.models r = .ok ms) :
    (∀ m ∈ ms, ∀ imports items, Imports.of m (itemPath r.home m) (definedNames m) = .ok imports →
      imports.declarations m = .ok items →
      ((∀ item ∈ imports.items ++ items, item.AvoidsKeywords) ↔
        AvoidsSelf m ∧ ∀ t ∈ r.types, ∀ p ∈ m.dependencies.artifacts, t.substitution = some p →
          p ≠ itemPath r.home m → ¬ Imports.EndsReserved p)) ∧
      ∀ path items, (Folder.ofItems ms path).declarations = .ok items →
        ∀ item ∈ items, item.AvoidsKeywords := by
  refine ⟨fun m hm imports items himports hitems => ?_, fun _ _ => avoidsKeywords_of_index⟩
  obtain ⟨part, hemits⟩ := (Client.mem_models hms).mp hm
  obtain ⟨document, _, _, _, hbuild⟩ := registryOfText_ok hr
  have hnamed : ∀ t ∈ r.types, Schema.IsName t.name := fun t ht =>
    (isNamed_of_registryOfText hr t ht).1
  rw [Imports.avoidsKeywords_iff (isItemName_of_mem hr hms m hm) hemits himports hitems]
  refine and_congr_right fun _ => ?_
  constructor
  · exact fun h t _ p hp _ hne => h p hp hne
  · intro h p hp hne hends
    obtain ⟨t, ht, hs⟩ := Imports.exists_substitution (Registry.wellFormed_of_build hbuild) hnamed
      (hemits.isCovered.values.declares p hp) hends
    exact h t ht p hp hs hne hends

/-- A schema with keywords in all places. -/
def crowded : String :=
  "enum Mode \x7b try super \x7d input Match \x7b fn: Mode type: Int! \x7d " ++
    "type Loop \x7b self: Mode move(in: Match): Loop \x7d " ++
    "type Query \x7b crate(gen: Int): Loop \x7d"

theorem models_avoidKeywords_crowded : ∃ r warnings ms,
    registryOfText .default [] crowded = .ok (r, warnings) ∧ Client.models r = .ok ms ∧
    (∀ m ∈ ms, (itemFile r.home m).isOk = true) ∧
    (∀ m ∈ ms, ∀ imports items, Imports.of m (itemPath r.home m) (definedNames m) = .ok imports →
      imports.declarations m = .ok items → ∀ item ∈ imports.items ++ items, item.AvoidsKeywords) ∧
    ∀ path items, (Folder.ofItems ms path).declarations = .ok items →
      ∀ item ∈ items, item.AvoidsKeywords := by
  have hrun : Outcome.any (registryOfText .default [] crowded) (fun out =>
      Outcome.any (Client.models out.1) fun ms =>
        ms.all (fun m => (itemFile out.1.home m).isOk && AvoidsSelf m) &&
          out.1.types.all fun t => t.substitution = none) = true := by
    decide +kernel
  obtain ⟨⟨r, warnings⟩, hr, hrun⟩ := Outcome.any_eq_true.mp hrun
  obtain ⟨ms, hms, htest⟩ := Outcome.any_eq_true.mp hrun
  simp only [Bool.and_eq_true, List.all_eq_true, decide_eq_true_eq] at htest
  obtain ⟨hfiles, hnone⟩ := htest
  obtain ⟨hitems, hindexes⟩ := models_avoidKeywords hr hms
  refine ⟨r, warnings, ms, hr, hms, fun m hm => (hfiles m hm).1, ?_, hindexes⟩
  intro m hm imports items himports hdeclared
  refine (hitems m hm imports items himports hdeclared).mpr ⟨(hfiles m hm).2, fun t ht p _ hs => ?_⟩
  rw [hnone t ht] at hs
  cases hs

/-- An enum with a value that is spelled `Self` in camel case. -/
def selfish : String := "enum E \x7b self \x7d type Query \x7b e: E \x7d"

/-- A variant can be a reserved word, and then the file of the enum is refused. -/
theorem exists_reserved_variant : ∃ r warnings ms m imports items,
    registryOfText .default [] selfish = .ok (r, warnings) ∧ Client.models r = .ok ms ∧ m ∈ ms ∧
    Imports.of m (itemPath r.home m) (definedNames m) = .ok imports ∧
    imports.declarations m = .ok items ∧ (Ident.plain "Self").IsReserved ∧
    .name (.plain "Self") ∈ items.flatMap (·.mentions) ∧
    itemFile r.home m = .error .unparsableCode := by
  have hrun : Outcome.any (registryOfText .default [] selfish) (fun out =>
      Outcome.any (Client.models out.1) fun ms => ms.any fun m =>
        Outcome.any (Imports.of m (itemPath out.1.home m) (definedNames m)) fun imports =>
          Outcome.any (imports.declarations m) fun items =>
            .name (.plain "Self") ∈ items.flatMap (·.mentions) &&
              Outcome.failsWith (itemFile out.1.home m) .unparsableCode) = true := by
    decide +kernel
  obtain ⟨⟨r, warnings⟩, hr, hrun⟩ := Outcome.any_eq_true.mp hrun
  obtain ⟨ms, hms, hrun⟩ := Outcome.any_eq_true.mp hrun
  obtain ⟨m, hm, hrun⟩ := List.any_eq_true.mp hrun
  obtain ⟨imports, himports, hrun⟩ := Outcome.any_eq_true.mp hrun
  obtain ⟨items, hitems, htest⟩ := Outcome.any_eq_true.mp hrun
  rw [Bool.and_eq_true, decide_eq_true_eq, Outcome.failsWith_eq_true] at htest
  exact ⟨r, warnings, ms, m, imports, items, hr, hms, hm, himports, hitems, by decide, htest⟩

end Rust

end Graphwright
