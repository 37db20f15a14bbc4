import Graphwright.Proofs.Client.Emission
import Graphwright.Proofs.Registry.Namespaces
import Graphwright.Proofs.Rust.Scope
import Graphwright.Proofs.Rust.Spelling
import Graphwright.Proofs.Schema.Names

/-!
# Short names

In the file of an item, a single name stands for the item itself or for something that the file
imports. No two paths have one name, and no name of the prelude, of the item or of what is imported
from the client library is taken. The table of imports does not know all names in scope, though:
primitive types, the client library itself, the type parameter of the service, and the name that an
item called `_` gets instead. Short names are apart from those exactly if no path that the item
depends on ends in one of them.
-/
namespace Graphwright

/-! ## Names of items -/

theorem Namespace.isCapital_serviceName (home : Namespace) : Text.IsCapital home.serviceName :=
  (Text.isCapital_upperCamelCase _).append (by decide)

namespace Rust

/-- What the names of the items of a client have in common. -/
structure IsItemName (m : Code.Model) : Prop where
  capital : Text.IsCapital m.name
  service : ∀ cls, m.artifact = .service cls → ∃ short, m.name = short ++ "Service"

theorem isItemName_of_mem {home : Namespace} {substitutions : Substitutions} {text : String}
    {r : Registry} {warnings : List Warning} {ms : List Code.Model}
    (hr : registryOfText home substitutions text = .ok (r, warnings))
    (hms : Client.models r = .ok ms) : ∀ m ∈ ms, IsItemName m := by
  intro m hm
  obtain ⟨part, hemits⟩ := (Client.mem_models hms).mp hm
  have hcapital : ∀ t ∈ r.types, Text.IsCapital (Text.capitalize t.name) := fun t ht =>
    Text.isCapital_capitalize (Schema.isAscii_of_isName (isNamed_of_registryOfText hr t ht).1)
  rcases hemits.placed with hprimary | ⟨⟨t, ht, hname⟩, _, cls, e⟩ | ⟨hname, _⟩
  · obtain ⟨t, ht, hname⟩ := hprimary.name
    exact ⟨hname ▸ hcapital t ht, fun cls h => absurd h (hprimary.not_service cls)⟩
  · refine ⟨?_, fun cls' h => nomatch e.symm.trans h⟩
    rw [hname]
    exact (hcapital t ht).append (by decide)
  · refine ⟨?_, fun _ _ => ⟨_, hname⟩⟩
    rw [hname]
    exact r.home.isCapital_serviceName

/-! ## Names that a file defines -/

/-- The name of an item in its own file. -/
def ownName (m : Code.Model) : String := if m.name = "_" then "__" else m.name

theorem ofName_of_isCapital {name : String} {i : Ident} (hc : Text.IsCapital name)
    (h : Ident.ofName name = .ok i) : i = .plain name := by
  unfold Ident.ofName at h
  split at h
  · rename_i cs hraw
    unfold Ident.rawName? at hraw
    split at hraw
    · rename_i hchars
      rw [Text.IsCapital, hchars] at hc
      exact absurd hc (by simp)
    · cases hraw
  · split at h
    · cases h
      rfl
    · cases h

theorem escaped_of_isCapital {m : Code.Model} {own : Ident} (hc : Text.IsCapital m.name)
    (hreserved : m.name ∉ reservedNames) (h : Ident.escaped m.name = .ok own) :
    own = .plain (ownName m) := by
  unfold Ident.escaped at h
  split at h
  · rename_i hkeyword
    have hname : m.name = "_" := by
      simp only [pathKeywords, List.mem_cons, List.not_mem_nil, or_false] at hkeyword
      rcases hkeyword with e | e | e | e | e
      · exact absurd (e ▸ hc) (by decide)
      · exact absurd (e ▸ hreserved) (by decide)
      · exact absurd (e ▸ hc) (by decide)
      · exact absurd (e ▸ hc) (by decide)
      · exact e
    rw [hname] at h
    rw [ofName_of_isCapital (by decide) h, ownName, if_pos hname]
    rfl
  · rename_i hkeyword
    split at h
    · rename_i hraw
      have hlower : ∀ name ∈ rawKeywords, ¬ Text.IsCapital name := by decide
      exact absurd hc (hlower m.name hraw)
    · rw [ofName_of_isCapital hc h, ownName, if_neg]
      exact fun e => hkeyword (e ▸ by decide)

/-- The type parameters of an item. -/
def paramNames (m : Code.Model) : List String :=
  match m.artifact with
  | .service _ => [Imports.transportParam.name]
  | _ => []

/-- The items of a file define the item, what stands behind it and its type parameter, and they
bring nothing else into scope. -/
theorem declarations_names {m : Code.Model} {imports : Imports} {items : List Item}
    (hc : Text.IsCapital m.name) (hreserved : m.name ∉ reservedNames)
    (h : imports.declarations m = .ok items) :
    (∀ n, n ∈ (items.flatMap Item.defines).map (·.name) ↔
      n = ownName m ∨ n ∈ (definedNames m).tail ∨ n ∈ paramNames m) ∧
      items.flatMap Item.brings = [] := by
  obtain ⟨own, hown, h⟩ := Outcome.bind_ok.mp h
  cases escaped_of_isCapital hc hreserved hown
  unfold definedNames paramNames
  split at h
  · rename_i hartifact
    obtain ⟨marker, hmarker, h⟩ := Outcome.bind_ok.mp h
    cases h
    cases ofName_of_isCapital (hc.append (by decide)) hmarker
    simp only [hartifact, List.flatMap_cons, List.flatMap_nil, Item.defines, Item.brings]
    simp [Ident.plain, Imports.markerName, or_comm]
  · rename_i values hartifact
    obtain ⟨variants, _, h⟩ := Outcome.bind_ok.mp h
    obtain ⟨members, _, h⟩ := Outcome.bind_ok.mp h
    obtain ⟨toWire, _, h⟩ := Outcome.bind_ok.mp h
    obtain ⟨fromWire, _, h⟩ := Outcome.bind_ok.mp h
    cases h
    simp [hartifact, Item.defines, Item.brings, Ident.plain]
  · rename_i cls hartifact
    obtain ⟨constants, _, h⟩ := Outcome.bind_ok.mp h
    obtain ⟨methods, _, h⟩ := Outcome.bind_ok.mp h
    cases h
    simp [hartifact, Item.defines, Item.brings, Ident.plain]
  · rename_i properties methods conformances hartifact
    obtain ⟨fields, _, h⟩ := Outcome.bind_ok.mp h
    obtain ⟨inherent, _, h⟩ := Outcome.bind_ok.mp h
    obtain ⟨implementations, himplementations, h⟩ := Outcome.bind_ok.mp h
    cases h
    -- One implementation for each interface stands behind the items of the object itself.
    have hnone : ∀ item ∈ implementations, item.defines = [] ∧ item.brings = [] := by
      intro item hitem
      obtain ⟨c, _, hitem⟩ := (Outcome.mem_mapM himplementations).mp hitem
      obtain ⟨_, _, hitem⟩ := Outcome.bind_ok.mp hitem
      obtain ⟨_, _, hitem⟩ := Outcome.bind_ok.mp hitem
      cases hitem
      exact ⟨rfl, rfl⟩
    have hdefines : implementations.flatMap Item.defines = [] :=
      List.flatMap_eq_nil_iff.mpr fun item hitem => (hnone item hitem).1
    have hbrings : implementations.flatMap Item.brings = [] :=
      List.flatMap_eq_nil_iff.mpr fun item hitem => (hnone item hitem).2
    rw [List.flatMap_append, List.flatMap_append, hdefines, hbrings]
    simp [hartifact, Item.defines, Item.brings, Ident.plain]
  · rename_i accessors hartifact
    obtain ⟨methods, _, h⟩ := Outcome.bind_ok.mp h
    cases h
    simp [hartifact, Item.defines, Item.brings, Ident.plain]
  · rename_i cls hartifact
    obtain ⟨constants, _, h⟩ := Outcome.bind_ok.mp h
    obtain ⟨methods, _, h⟩ := Outcome.bind_ok.mp h
    cases h
    simp [hartifact, Item.defines, Item.brings, Ident.plain]
  · rename_i cls hartifact
    obtain ⟨methods, _, h⟩ := Outcome.bind_ok.mp h
    cases h
    simp [hartifact, Item.defines, Item.brings, Ident.plain, Imports.transportParam]

theorem Imports.items_within {S : Ident → Prop} (imports : Imports) :
    ∀ item ∈ imports.items, item.Within S := by
  intro item hitem
  rcases List.mem_append.mp hitem with hitem | hitem
  · split at hitem
    · cases hitem
    · cases List.mem_singleton.mp hitem
      trivial
  · obtain ⟨segments, _, rfl⟩ := List.mem_map.mp hitem
    trivial

theorem Imports.items_defines (imports : Imports) : imports.items.flatMap Item.defines = [] := by
  refine List.flatMap_eq_nil_iff.mpr fun item hitem => ?_
  rcases List.mem_append.mp hitem with hitem | hitem
  · split at hitem
    · cases hitem
    · cases List.mem_singleton.mp hitem
      rfl
  · obtain ⟨segments, _, rfl⟩ := List.mem_map.mp hitem
    rfl

theorem Imports.mem_items_brings {imports : Imports} {i : Ident} :
    i ∈ imports.items.flatMap Item.brings ↔
      (∃ item ∈ imports.runtime, .plain item.name = i) ∨
        ∃ segments ∈ imports.uses, segments.getLast? = some i := by
  unfold Imports.items
  rw [List.flatMap_append, List.mem_append, List.flatMap_map]
  refine or_congr ?_ (by simp [Item.brings])
  split
  · rename_i hnone
    simp [List.map_eq_nil_iff.mp hnone]
  · simp [Item.brings]

theorem itemFile_ok {home : Namespace} {m : Code.Model} {file : File}
    (h : itemFile home m = .ok file) :
    m.name ∉ reservedNames ∧ ∃ imports items,
      Imports.of m (itemPath home m) (definedNames m) = .ok imports ∧
      imports.declarations m = .ok items ∧ file.items = imports.items ++ items := by
  unfold itemFile at h
  split at h
  · cases h
  · rename_i hreserved
    obtain ⟨imports, himports, h⟩ := Outcome.bind_ok.mp h
    obtain ⟨items, hitems, h⟩ := Outcome.bind_ok.mp h
    rw [File.eq_of_checked h]
    exact ⟨hreserved, imports, items, himports, hitems, rfl⟩

/-! ## Names in scope -/

/-- The names that every file knows without importing them. -/
def ambientNames : List String := reservedNames ++ primitiveNames ++ [clientLibrary.name]

namespace File

def defined (file : File) : List String := (file.items.flatMap Item.defines).map (·.name)

def brought (file : File) : List String := (file.items.flatMap Item.brings).map (·.name)

def scope (file : File) : List String := ambientNames ++ file.defined ++ file.brought

end File

/-- The names in the scope of an item's file that its table of imports does not know. -/
def unguardedNames (m : Code.Model) : List String :=
  primitiveNames ++ [clientLibrary.name] ++ paramNames m ++ (if m.name = "_" then ["__"] else [])

theorem mem_unguardedNames {m : Code.Model} {n : String} : n ∈ unguardedNames m ↔
    n ∈ primitiveNames ++ [clientLibrary.name] ∨ n ∈ paramNames m ∨ m.name = "_" ∧ n = "__" := by
  unfold unguardedNames
  split <;> simp [*, or_assoc]

theorem mem_paramNames {m : Code.Model} {n : String} :
    n ∈ paramNames m ↔ n = "T" ∧ ∃ cls, m.artifact = .service cls := by
  unfold paramNames
  split
  · rename_i cls h
    simp [h, Imports.transportParam, Ident.plain]
  · rename_i h
    simpa using fun _ cls => h cls

theorem IsItemName.not_mem_paramNames {m : Code.Model} (hm : IsItemName m) :
    m.name ∉ paramNames m := by
  intro h
  obtain ⟨hname, cls, hcls⟩ := mem_paramNames.mp h
  obtain ⟨short, hshort⟩ := hm.service cls hcls
  have hlength : (short ++ "Service").length = "T".length := by rw [← hshort, hname]
  rw [String.length_append] at hlength
  exact absurd hlength (by simp +arith [String.length])

theorem definedNames_eq (m : Code.Model) : definedNames m = m.name :: (definedNames m).tail := rfl

theorem mem_definedNames_tail {m : Code.Model} {n : String} :
    n ∈ (definedNames m).tail ↔ n = m.name ++ "Tag" ∧ m.artifact = .customScalar := by
  unfold definedNames
  split
  · rename_i h
    simp [h, Imports.markerName]
  · rename_i h
    simpa using fun _ => h

theorem not_isCapital_of_mem : ∀ n ∈ primitiveNames ++ [clientLibrary.name],
    ¬ Text.IsCapital n := by decide

theorem not_mem_reservedNames : ∀ n ∈ primitiveNames ++ [clientLibrary.name] ++ ["T", "__"],
    n ∉ reservedNames ∧ ∀ item ∈ Code.RuntimeItem.all, item.name ≠ n := by decide

/-- The table does not start with the names that it does not know. -/
theorem not_mem_startNames {m : Code.Model} (hm : IsItemName m) {n : String}
    (hn : n ∈ unguardedNames m) (imports : Imports) : n ∉ imports.startNames (definedNames m) := by
  have hn' : n ∈ primitiveNames ++ [clientLibrary.name] ++ ["T", "__"] ∧ n ∉ definedNames m := by
    rw [definedNames_eq, List.mem_cons, mem_definedNames_tail, List.mem_append]
    rcases mem_unguardedNames.mp hn with hn | hn | ⟨hname, rfl⟩
    · refine ⟨Or.inl hn, ?_⟩
      rintro (rfl | ⟨rfl, _⟩)
      · exact not_isCapital_of_mem _ hn hm.capital
      · exact not_isCapital_of_mem _ hn (hm.capital.append (by decide))
    · obtain ⟨rfl, cls, hcls⟩ := mem_paramNames.mp hn
      refine ⟨Or.inr (by decide), ?_⟩
      rintro (hname | ⟨_, hartifact⟩)
      · exact hm.not_mem_paramNames (hname ▸ hn)
      · rw [hcls] at hartifact
        cases hartifact
    · refine ⟨Or.inr (by decide), ?_⟩
      rw [hname]
      rintro (h | ⟨h, _⟩)
      · exact absurd h (by decide)
      · exact absurd h (by decide)
  rw [Imports.startNames, List.mem_append, List.mem_append, List.mem_map]
  rintro ((h | h) | ⟨item, _, h⟩)
  · exact (not_mem_reservedNames n hn'.1).1 h
  · exact hn'.2 h
  · exact (not_mem_reservedNames n hn'.1).2 item (Code.RuntimeItem.mem_all item) h

/-- What single names stand for in the file of an item. -/
structure ShortNames (home : Namespace) (m : Code.Model) (file : File) (imports : Imports) :
    Prop where
  table : Imports.of m (itemPath home m) (definedNames m) = .ok imports
  /-- Whatever the file relies on is in scope. -/
  inScope : ∀ item ∈ file.items, item.Within (·.name ∈ file.scope)
  brought : ∀ n, n ∈ file.brought ↔ n ∈ imports.runtime.map (·.name) ∨
    ∃ path i, imports.Shortens (itemPath home m) path i ∧ i.name = n
  /-- The item itself is spelled by the name that it is defined under. -/
  own : ∃ i, imports.typeAt (itemPath home m) = .ok (.named i) ∧ i.name ∈ file.defined ∧
    i.name ∉ ambientNames ++ (definedNames m).tail ++ paramNames m ++ imports.runtime.map (·.name)
  /-- A short name is imported from the path that it is written for. -/
  denotes : ∀ path i, imports.Shortens (itemPath home m) path i → ∃ segments,
    path? path = some segments ∧ segments.getLast? = some i ∧
      .use false segments.dropLast [i] ∈ file.items
  unique : ∀ path i path' i', imports.Shortens (itemPath home m) path i →
    imports.Shortens (itemPath home m) path' i' → i.name = i'.name → path = path'
  guarded : ∀ path i, imports.Shortens (itemPath home m) path i →
    i.name ∉ reservedNames ++ definedNames m ++ imports.runtime.map (·.name)
  /-- Short names are apart from all other names in scope exactly if no path that the item depends
  on ends in a name that the table does not know. -/
  apart_iff : (∀ path i, imports.Shortens (itemPath home m) path i →
      i.name ∉ ambientNames ++ file.defined ++ imports.runtime.map (·.name)) ↔
    ∀ p ∈ m.dependencies.artifacts, p ≠ itemPath home m →
      ∀ tail, importableTail? p = some tail → tail ∉ unguardedNames m

section ItemFile

variable {home : Namespace} {m : Code.Model} {file : File} {imports : Imports} {items : List Item}

theorem mem_defined (hm : IsItemName m) (hreserved : m.name ∉ reservedNames)
    (hitems : imports.declarations m = .ok items) (hfile : file.items = imports.items ++ items)
    {n : String} : n ∈ file.defined ↔
      n = ownName m ∨ n ∈ (definedNames m).tail ∨ n ∈ paramNames m := by
  rw [File.defined, hfile, List.flatMap_append, imports.items_defines, List.nil_append]
  exact (declarations_names hm.capital hreserved hitems).1 n

theorem mem_brought (hm : IsItemName m) (hreserved : m.name ∉ reservedNames)
    (hitems : imports.declarations m = .ok items) (hfile : file.items = imports.items ++ items)
    {base : List String} {ownPath : String} {own : Ident} {paths : List String}
    (htracks : imports.Tracks base ownPath own paths) {n : String} :
    n ∈ file.brought ↔ n ∈ imports.runtime.map (·.name) ∨
      ∃ path i, imports.Shortens ownPath path i ∧ i.name = n := by
  rw [File.brought, hfile, List.flatMap_append, (declarations_names hm.capital hreserved hitems).2,
    List.append_nil, List.mem_map]
  simp only [Imports.mem_items_brings, htracks.mem_uses]
  constructor
  · rintro ⟨_, ⟨item, hitem, rfl⟩ | ⟨path, hp⟩, rfl⟩
    · exact Or.inl (List.mem_map_of_mem hitem)
    · exact Or.inr ⟨path, _, hp, rfl⟩
  · rintro (hn | ⟨path, i, hp, rfl⟩)
    · obtain ⟨item, hitem, rfl⟩ := List.mem_map.mp hn
      exact ⟨_, Or.inl ⟨item, hitem, rfl⟩, rfl⟩
    · exact ⟨i, Or.inr ⟨path, hp⟩, rfl⟩

/-- A name that the table does not start with is that of something else exactly if it is one that
the table does not know. -/
theorem mem_unguardedNames_iff (hdefined : ∀ n, n ∈ file.defined ↔
      n = ownName m ∨ n ∈ (definedNames m).tail ∨ n ∈ paramNames m) {n : String}
    (hn : n ∉ imports.startNames (definedNames m)) :
    n ∈ ambientNames ++ file.defined ++ imports.runtime.map (·.name) ↔ n ∈ unguardedNames m := by
  rw [Imports.startNames, definedNames_eq, List.mem_append, List.mem_append, List.mem_cons] at hn
  rw [ambientNames, List.append_assoc reservedNames, List.mem_append, List.mem_append,
    List.mem_append, hdefined, mem_unguardedNames]
  constructor
  · rintro (((h | h) | h | h | h) | h)
    · exact absurd (Or.inl (Or.inl h)) hn
    · exact Or.inl h
    · unfold ownName at h
      split at h
      · rename_i hname
        exact Or.inr (Or.inr ⟨hname, h⟩)
      · exact absurd (Or.inl (Or.inr (Or.inl h))) hn
    · exact absurd (Or.inl (Or.inr (Or.inr h))) hn
    · exact Or.inr (Or.inl h)
    · exact absurd (Or.inr h) hn
  · rintro (h | h | ⟨hname, h⟩)
    · exact Or.inl (Or.inl (Or.inr h))
    · exact Or.inl (Or.inr (Or.inr (Or.inr h)))
    · refine Or.inl (Or.inr (Or.inl ?_))
      rw [ownName, if_pos hname, h]

/-- The table of a file covers what its items rely on. -/
theorem coveredBy_scope (hdefined : ownName m ∈ file.defined) {ownPath : String}
    {base paths : List String}
    (hbrought : ∀ n, n ∈ file.brought ↔ n ∈ imports.runtime.map (·.name) ∨
      ∃ path i, imports.Shortens ownPath path i ∧ i.name = n)
    (htracks : imports.Tracks base ownPath (.plain (ownName m)) paths) :
    imports.CoveredBy (·.name ∈ file.scope) where
  reserved n hn := by simp [File.scope, ambientNames, Ident.plain, hn]
  primitive n hn := by simp [File.scope, ambientNames, Ident.plain, hn]
  library := by simp [File.scope, ambientNames]
  runtime item hitem := List.mem_append_right _
    ((hbrought item.name).mpr (Or.inl (List.mem_map_of_mem hitem)))
  typeAt path type h := by
    rcases htracks.typeAt_cases h with ⟨_, rfl⟩ | ⟨hmem, tail, htail, rfl⟩ | ⟨form, tokens, rfl⟩
    · exact ⟨List.mem_append_left _ (List.mem_append_right _ hdefined), trivial⟩
    · have hshort := htracks.shortens_iff.mpr ⟨hmem, tail, htail, rfl⟩
      exact ⟨List.mem_append_right _ ((hbrought tail).mpr (Or.inr ⟨path, _, hshort, rfl⟩)), trivial⟩
    · trivial

theorem ownName_not_mem (hm : IsItemName m) (hreserved : m.name ∉ reservedNames)
    (hruntime : imports.runtime = m.dependencies.runtime.filter
      (fun r => r.name ∉ reservedNames ++ definedNames m)) :
    ownName m ∉ ambientNames ++ (definedNames m).tail ++ paramNames m
      ++ imports.runtime.map (·.name) := by
  rw [ambientNames, List.append_assoc reservedNames, List.mem_append, List.mem_append,
    List.mem_append, List.mem_append, mem_definedNames_tail]
  -- Only an item called `_` is not defined under its own name, and the table knows `_` instead.
  by_cases hname : m.name = "_"
  · have hown : ownName m = "__" := if_pos hname
    have hstart := not_mem_startNames hm
      (mem_unguardedNames.mpr (Or.inr (Or.inr ⟨hname, hown⟩))) imports
    rw [Imports.startNames, List.mem_append, List.mem_append] at hstart
    rintro ((((h | h) | ⟨h, _⟩) | h) | h)
    · exact hstart (Or.inl (Or.inl h))
    · exact not_isCapital_of_mem _ h (hown ▸ by decide)
    · rw [hown, hname] at h
      exact absurd h (by decide)
    · rw [hown, mem_paramNames] at h
      exact absurd h.1 (by decide)
    · exact hstart (Or.inr h)
  · rw [ownName, if_neg hname]
    rintro ((((h | h) | ⟨h, _⟩) | h) | h)
    · exact hreserved h
    · exact not_isCapital_of_mem _ h hm.capital
    · have hlength : m.name.length = m.name.length + "Tag".length := by
        rw [← String.length_append, ← h]
      exact absurd hlength (by simp [String.length])
    · exact hm.not_mem_paramNames h
    · rw [hruntime] at h
      obtain ⟨item, hitem, h⟩ := List.mem_map.mp h
      have hfree := of_decide_eq_true (List.mem_filter.mp hitem).2
      exact hfree (List.mem_append_right _ (h ▸ List.mem_cons_self ..))

end ItemFile

theorem shortNames_of_itemFile {home : Namespace} {m : Code.Model} {file : File}
    (hm : IsItemName m) (h : itemFile home m = .ok file) :
    ∃ imports, ShortNames home m file imports := by
  obtain ⟨hreserved, imports, items, himports, hitems, hfile⟩ := itemFile_ok h
  obtain ⟨own, paths, hown, htracks, hsub, hknows, hruntime⟩ := Imports.of_ok himports
  cases escaped_of_isCapital hm.capital hreserved hown
  have hdefined : ∀ n, n ∈ file.defined ↔
      n = ownName m ∨ n ∈ (definedNames m).tail ∨ n ∈ paramNames m := fun n =>
    mem_defined hm hreserved hitems hfile
  have hbrought : ∀ n, n ∈ file.brought ↔ n ∈ imports.runtime.map (·.name) ∨
      ∃ path i, imports.Shortens (itemPath home m) path i ∧ i.name = n := fun n =>
    mem_brought hm hreserved hitems hfile htracks
  have howndefined : ownName m ∈ file.defined := (hdefined _).mpr (Or.inl rfl)
  have hcovered := coveredBy_scope howndefined hbrought htracks
  refine ⟨imports, ?_⟩
  constructor
  case table => exact himports
  case inScope =>
    intro item hitem
    rw [hfile] at hitem
    rcases List.mem_append.mp hitem with hitem | hitem
    · exact imports.items_within item hitem
    · refine hcovered.declarations hitems (fun item hitem i hi => ?_) item hitem
      have hmem : i ∈ file.items.flatMap Item.defines :=
        List.mem_flatMap.mpr ⟨item, hfile ▸ List.mem_append_right _ hitem, hi⟩
      exact List.mem_append_left _ (List.mem_append_right _ (List.mem_map_of_mem hmem))
  case brought => exact hbrought
  case own => exact ⟨_, htracks.typeAt_own, howndefined, ownName_not_mem hm hreserved hruntime⟩
  case denotes =>
    intro path i hp
    obtain ⟨segments, hs, hpath, hlast⟩ := htracks.exists_use hp
    refine ⟨segments, hpath, hlast, ?_⟩
    rw [hfile, Imports.items]
    refine List.mem_append_left _ (List.mem_append_right _ (List.mem_map.mpr ⟨segments, hs, ?_⟩))
    rw [hlast]
    rfl
  case unique => exact fun path i path' i' => htracks.eq_of_shortens
  case guarded => exact fun path i hp => htracks.not_mem_base hp
  case apart_iff =>
    rw [← htracks.avoids_iff hsub hknows fun n hn => not_mem_startNames hm hn imports]
    refine forall₃_congr fun path i hp => not_congr ?_
    exact mem_unguardedNames_iff hdefined (htracks.not_mem_base hp)

/-- A file of a client keeps its short names apart from each other and from all names but those that
its table of imports does not know. -/
theorem itemFile_shortNames {home : Namespace} {substitutions : Substitutions} {text : String}
    {r : Registry} {warnings : List Warning} {ms : List Code.Model}
    (hr : registryOfText home substitutions text = .ok (r, warnings))
    (hms : Client.models r = .ok ms) {m : Code.Model} (hm : m ∈ ms) {file : File}
    (hfile : itemFile r.home m = .ok file) : ∃ imports, ShortNames r.home m file imports :=
  shortNames_of_itemFile (isItemName_of_mem hr hms m hm) hfile

/-- Users with a boss each. -/
def staff : String := "type Query { boss: User } type User { id: Int boss: User }"

theorem itemFile_shortNames_staff : ∃ r warnings ms m file imports,
    registryOfText .default [] staff = .ok (r, warnings) ∧ Client.models r = .ok ms ∧ m ∈ ms ∧
    itemFile r.home m = .ok file ∧ "User" ∈ file.brought ∧ ShortNames r.home m file imports := by
  have hrun : Outcome.any (registryOfText .default [] staff) (fun out =>
      Outcome.any (Client.models out.1) fun ms => ms.any fun m =>
        Outcome.any (itemFile out.1.home m) fun file => "User" ∈ file.brought) = true := by
    decide +kernel
  obtain ⟨⟨r, warnings⟩, hr, hrun⟩ := Outcome.any_eq_true.mp hrun
  obtain ⟨ms, hms, hrun⟩ := Outcome.any_eq_true.mp hrun
  obtain ⟨m, hm, hrun⟩ := List.any_eq_true.mp hrun
  obtain ⟨file, hfile, htest⟩ := Outcome.any_eq_true.mp hrun
  obtain ⟨imports, h⟩ := itemFile_shortNames hr hms hm hfile
  exact ⟨r, warnings, ms, m, file, imports, hr, hms, hm, hfile, of_decide_eq_true htest, h⟩

/-- A type with the name of the type parameter of the service. -/
def single : String := "type Query { t: T } type T { x: Int }"

/-- In the file of the service, the short name of a type can be that of the type parameter. -/
theorem exists_shortens_transportParam : ∃ r warnings ms m file imports,
    registryOfText .default [] single = .ok (r, warnings) ∧ Client.models r = .ok ms ∧ m ∈ ms ∧
    itemFile r.home m = .ok file ∧
    Imports.of m (itemPath r.home m) (definedNames m) = .ok imports ∧
    imports.Shortens (itemPath r.home m) "crate::graphql::types::T" Imports.transportParam ∧
    Imports.transportParam ∈ file.items.flatMap Item.defines := by
  have hrun : Outcome.any (registryOfText .default [] single) (fun out =>
      Outcome.any (Client.models out.1) fun ms => ms.any fun m =>
        Outcome.any (itemFile out.1.home m) fun file => "T" ∈ file.brought &&
          Imports.transportParam ∈ file.items.flatMap Item.defines &&
          m.dependencies.artifacts.filter (importableTail? · = some "T")
            = ["crate::graphql::types::T"]) = true := by
    decide +kernel
  obtain ⟨⟨r, warnings⟩, hr, hrun⟩ := Outcome.any_eq_true.mp hrun
  obtain ⟨ms, hms, hrun⟩ := Outcome.any_eq_true.mp hrun
  obtain ⟨m, hm, hrun⟩ := List.any_eq_true.mp hrun
  obtain ⟨file, hfile, htest⟩ := Outcome.any_eq_true.mp hrun
  simp only [Bool.and_eq_true, decide_eq_true_eq] at htest
  obtain ⟨⟨hbrought, hparam⟩, hpaths⟩ := htest
  obtain ⟨imports, h⟩ := shortNames_of_itemFile (isItemName_of_mem hr hms m hm) hfile
  obtain ⟨own, paths, _, htracks, hsub, _⟩ := Imports.of_ok h.table
  have hruntime : "T" ∉ imports.runtime.map (·.name) := by
    intro hmem
    obtain ⟨item, _, hname⟩ := List.mem_map.mp hmem
    exact (not_mem_reservedNames "T" (by decide)).2 item (Code.RuntimeItem.mem_all item) hname
  obtain ⟨path, i, hshort, hname⟩ := ((h.brought "T").mp hbrought).resolve_left hruntime
  obtain ⟨hmem, tail, htail, rfl⟩ := htracks.shortens_iff.mp hshort
  cases hname
  have hpath : path ∈ m.dependencies.artifacts.filter (importableTail? · = some "T") :=
    List.mem_filter.mpr ⟨hsub path hmem, decide_eq_true htail⟩
  rw [hpaths, List.mem_singleton] at hpath
  cases hpath
  exact ⟨r, warnings, ms, m, file, imports, hr, hms, hm, hfile, h.table, hshort, hparam⟩

end Rust

end Graphwright
