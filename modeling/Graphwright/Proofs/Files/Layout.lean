import Graphwright.Proofs.Execution.Services
import Graphwright.Proofs.Registry.Declared

/-!
# The files of a client

A run gives one file for each type that needs an item, one for each selection builder, one for the
service, and the module indexes, in a fixed order and under paths of their own. Names that meet in
one path, as the spelling of files leaves out what tells them apart, are collisions.
-/
namespace Graphwright

open Code (Model)
open Rust (CanSpell moduleName)

/-- The file of the item for a type. -/
def typeEntry (kind : String) (t : RegisteredType) : String × String :=
  ("types/" ++ moduleName (Text.capitalize t.name) ++ ".rs", kind ++ " `" ++ t.name ++ "`")

def builderEntry (t : RegisteredType) : String × String :=
  (moduleName (Client.builderName t.name) ++ ".rs", "field selection `" ++ t.name ++ "`")

def serviceEntry (home : Namespace) : String × String :=
  (moduleName home.serviceName ++ ".rs", "service `" ++ home.root ++ "`")

/-- The types that get an item, kind by kind, with what their files call the kind. -/
def itemTypes (r : Registry) : List (String × RegisteredType) :=
  (Client.primary r .customScalar).map ("custom scalar", ·) ++
  (Client.primary r .enumeration).map ("graphql enum", ·) ++
  (Client.primary r .inputObject).map ("graphql input object", ·) ++
  (Client.primary r .interface).map ("graphql interface", ·) ++
  (Client.primary r .outputObject).map ("graphql object", ·)

/-- All files of a client. -/
def clientEntries (r : Registry) : List (String × String) :=
  (itemTypes r).map (fun e => typeEntry e.1 e.2)
    ++ ((r.ofCategory .outputObject).map builderEntry
      ++ ((r.ofCategory .interface).filter (·.isSubstituted)).map builderEntry)
    ++ [serviceEntry r.home]
    ++ indexEntries (itemTypes r ≠ [])

namespace Client

/-! ## Items -/

/-- The folder and the name of an item, and what it is generated from. -/
def heading (m : Model) : List String × String × String := (m.folder, m.name, Rust.origin m)

def typeHeading (kind : String) (t : RegisteredType) : List String × String × String :=
  ([typesFolder], Text.capitalize t.name, kind ++ " `" ++ t.name ++ "`")

def builderHeading (t : RegisteredType) : List String × String × String :=
  ([], builderName t.name, "field selection `" ++ t.name ++ "`")

def serviceHeading (home : Namespace) : List String × String × String :=
  ([], home.serviceName, "service `" ++ home.root ++ "`")

/-- The heading of what a generator emits for a type. -/
def Part.heading (home : Namespace) (t : RegisteredType) : Part → List String × String × String
  | customScalar => typeHeading "custom scalar" t
  | enumeration => typeHeading "graphql enum" t
  | inputObject => typeHeading "graphql input object" t
  | interface => typeHeading "graphql interface" t
  | outputObject => typeHeading "graphql object" t
  | selectionBuilder => builderHeading t
  | service => serviceHeading home

section

variable {r : Registry} {t : RegisteredType} {m : Model} {ms : List Model}

theorem heading_of_service (h : service r = .ok m) : heading m = serviceHeading r.home := by
  obtain ⟨_, _, h⟩ := Outcome.bind_ok.mp h
  cases h
  rfl

theorem Part.heading_of_emit {part : Part} (h : part.emit r t = .ok m) :
    Client.heading m = part.heading r.home t := by
  by_cases hpart : part = .service
  · subst hpart
    exact heading_of_service h
  · cases Part.item_of_emit h hpart <;> rfl

theorem headings_of_models (h : models r = .ok ms) :
    ms.map heading = (itemTypes r).map (fun e => typeHeading e.1 e.2)
      ++ (selectable r).map builderHeading ++ [serviceHeading r.home] := by
  rw [models_eq] at h
  obtain ⟨items, hitems, h⟩ := Outcome.bind_ok.mp h
  obtain ⟨own, hown, h⟩ := Outcome.bind_ok.mp h
  cases h
  have hheadings : items.map heading = (emissions r).map fun e => e.1.heading r.home e.2 :=
    Outcome.map_eq_of_mapM hitems fun e _ m hm => Part.heading_of_emit hm
  rw [List.map_append, hheadings, List.map_singleton, heading_of_service hown]
  simp [emissions, Part.all, Part.subjects, Part.heading, itemTypes, Function.comp_def]

end

/-! ## Files -/

/-- The file of an item with a heading. -/
def entryOf (heading : List String × String × String) : String × String :=
  (Path.join (Path.ofNames heading.1) (moduleName heading.2.1 ++ ".rs"), heading.2.2)

theorem entryOf_builderHeading (t : RegisteredType) : entryOf (builderHeading t) = builderEntry t := by
  rw [entryOf, builderHeading, Rust.join_root, builderEntry]

theorem entryOf_serviceHeading (home : Namespace) :
    entryOf (serviceHeading home) = serviceEntry home := by
  rw [entryOf, serviceHeading, Rust.join_root, serviceEntry]

theorem entryOf_typeHeading {t : RegisteredType}
    (h : CanSpell (moduleName (Text.capitalize t.name))) (kind : String) :
    entryOf (typeHeading kind t) = typeEntry kind t := by
  rw [entryOf, typeHeading, Rust.join_types h, typeEntry]

theorem any_folder {r : Registry} {ms : List Model} (h : models r = .ok ms) :
    ms.any (·.folder = [typesFolder]) = decide (itemTypes r ≠ []) := by
  have hany : ms.any (·.folder = [typesFolder]) = (ms.map heading).any (·.1 = [typesFolder]) := by
    rw [List.any_map]
    rfl
  rw [hany, headings_of_models h]
  cases itemTypes r <;> simp [typeHeading, builderHeading, serviceHeading]

theorem twoFolders_of_models {r : Registry} {ms : List Model} (h : models r = .ok ms) :
    Rust.Folder.TwoFolders ms := by
  intro m hm
  obtain ⟨part, hemits⟩ := (mem_models h).mp hm
  rcases hemits.placed with hp | ⟨_, hf, _⟩ | ⟨_, hf, _⟩
  · exact Or.inl hp.folder
  · exact Or.inr hf
  · exact Or.inr hf

end Client

open Client (heading typeHeading entryOf)

theorem entries_of_render {backend : Backend} {r : Registry} {ms : List Model}
    {files : List GeneratedFile} (hms : Client.models r = .ok ms)
    (h : backend.render r.home ms = .ok files) :
    files.map (·.entry) = clientEntries r := by
  have hspell := Backend.canSpell_of_render h
  obtain ⟨rendered, indexes, hrendered, hindexes, rfl⟩ := Backend.render_ok h
  have hitems : rendered.map (·.entry) = (ms.map heading).map entryOf := by
    rw [List.map_map]
    refine Outcome.map_eq_of_mapM hrendered fun m _ file hfile => ?_
    rw [GeneratedFile.entry, Rust.path_of_render hfile, Rust.origin_of_render hfile]
    rfl
  have htypes : ((itemTypes r).map fun e => typeHeading e.1 e.2).map entryOf =
      (itemTypes r).map fun e => typeEntry e.1 e.2 := by
    rw [List.map_map]
    refine List.map_congr_left fun e he => ?_
    have hmem : typeHeading e.1 e.2 ∈ ms.map heading := by
      rw [Client.headings_of_models hms]
      exact List.mem_append_left _ (List.mem_append_left _ (List.mem_map_of_mem he))
    obtain ⟨m, hm, hheading⟩ := List.mem_map.mp hmem
    have hname : m.name = Text.capitalize e.2.name := congrArg (·.2.1) hheading
    exact Client.entryOf_typeHeading (hname ▸ (hspell m hm).1) e.1
  have hbuilders : ((Client.selectable r).map Client.builderHeading).map entryOf =
      (r.ofCategory .outputObject).map builderEntry
        ++ ((r.ofCategory .interface).filter (·.isSubstituted)).map builderEntry := by
    rw [List.map_map, ← List.map_append]
    exact List.map_congr_left fun t _ => Client.entryOf_builderHeading t
  have hservice : [Client.serviceHeading r.home].map entryOf = [serviceEntry r.home] := by
    rw [List.map_singleton, Client.entryOf_serviceHeading]
  rw [List.map_append, hitems, Client.headings_of_models hms, List.map_append, List.map_append,
    htypes, hbuilders, hservice, clientEntries,
    Rust.entries_of_renderModules (Client.twoFolders_of_models hms) hindexes, Client.any_folder hms]

/-- Types that need an item of their own do not share its path. -/
theorem eq_of_generatedPath {home : Namespace} {r : Registry} {ms : List Model}
    (hr : r.WellFormed home) (hms : Client.models r = .ok ms)
    (hfiles : ∀ m ∈ ms, ∀ m' ∈ ms, Rust.itemFilePath m = Rust.itemFilePath m' → m = m')
    {t t' : RegisteredType} (ht : t ∈ r.types) (ht' : t' ∈ r.types)
    (hs : t.isSubstituted = false) (hs' : t'.isSubstituted = false) (hc : t.category ≠ .union)
    (hc' : t'.category ≠ .union) (h : t.generatedPath = t'.generatedPath) : t = t' := by
  obtain ⟨dependencies, artifact, hm⟩ := Client.exists_primaryModel hms ht hs hc
  obtain ⟨dependencies', artifact', hm'⟩ := Client.exists_primaryModel hms ht' hs' hc'
  rw [hr.path t ht, hr.path t' ht'] at h
  have e := Execution.eq_of_itemPath hfiles hm hm' rfl rfl
    (show Rust.itemPath home _ = Rust.itemPath home _ from h)
  exact List.inj_on_of_nodup_map hr.nodup ht ht' (congrArg (·.typeName) e)

/-- A run that succeeds gives exactly the files that the definitions of the schema call for, all
under paths of their own. -/
theorem generate_files {options : Options} {text : String} {files : List GeneratedFile}
    {warnings : List Warning} (h : generate options text = .ok (files, warnings)) :
    ∃ document ignored r, Schema.Document.parse text = .ok (document, ignored) ∧
      r = Registry.declared document options.home options.substitutions ∧
      files.map (·.entry) = clientEntries r ∧
      (files.map (·.path)).Nodup ∧ (files.map (·.place)).Nodup ∧
      ∀ t ∈ r.types, ∀ t' ∈ r.types, t.isSubstituted = false → t'.isSubstituted = false →
        t.category ≠ .union → t'.category ≠ .union → t.generatedPath = t'.generatedPath → t = t' := by
  obtain ⟨backend, r, ms, hr, hms, hrender, hcheck⟩ := steps_of_generate h
  obtain ⟨document, ignored, found, hparse, hbuild⟩ := registryOfText_ok hr
  have hplaces := GeneratedFile.checkCollisions_ok.mp hcheck
  have hparts : files.map (·.place) = (files.map (·.path)).map Path.parts := by
    rw [List.map_map]
    rfl
  refine ⟨document, ignored, r, hparse, Registry.eq_declared_of_build hbuild,
    entries_of_render hms hrender, .of_map Path.parts (hparts ▸ hplaces), hplaces, ?_⟩
  intro t ht t' ht' hs hs' hc hc' e
  exact eq_of_generatedPath (Registry.wellFormed_of_build hbuild) hms
    (eq_of_itemFilePath hrender hcheck) ht ht' hs hs' hc hc' e

theorem generate_files_people : ∃ files warnings,
    generate .standard Execution.people = .ok (files, warnings) ∧ (files.map (·.path)).Nodup ∧
      ("mod.rs", "module index") ∈ files.map (·.entry) := by
  obtain ⟨⟨files, warnings⟩, h⟩ := Execution.peopleClient
  obtain ⟨_, _, _, _, _, hentries, hnodup, _⟩ := generate_files h
  refine ⟨files, warnings, h, hnodup, ?_⟩
  rw [hentries]
  exact List.mem_append_right _ List.mem_cons_self

end Graphwright
