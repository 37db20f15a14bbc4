import Graphwright.Proofs.Client.MemberNames
import Graphwright.Proofs.Client.Uses
import Graphwright.Proofs.Rust.ShortNames

/-!
# Traits in scope

A method of a trait can be called only where the trait is in scope. Generated files call methods of
two traits of the client library, and each imports both that it needs by name. The one exception is
the file of an item that has the name of a trait itself: the library's trait is not imported there,
and to write its path in full, as is done for types, is of no use to a call of a method. Main
statement: a file that calls the method of a trait imports that trait exactly if its own item is not
called like it.
-/
namespace Graphwright

namespace Rust

open Code (RuntimeItem)

/-! ## Calls -/

namespace File

/-- Something in the file is called by this name as a method. -/
def Calls (file : File) (method : String) : Prop :=
  .method (.plain method) ∈ file.items.flatMap (·.mentions)

instance (file : File) (method : String) : Decidable (file.Calls method) :=
  inferInstanceAs (Decidable (_ ∈ _))

/-- An item of the client library is imported under its own name. -/
def ImportsByName (file : File) (item : RuntimeItem) : Prop :=
  ∃ names, .use false [clientLibrary] names ∈ file.items ∧ .plain item.name ∈ names

end File

namespace Ident

theorem eq_of_ofName_plain {n s : String} (h : ofName n = .ok (.plain s)) : n = s := by
  unfold ofName at h
  split at h <;> split at h <;> cases h
  rfl

/-- What is spelled as a name of its own has that name. -/
theorem IsOwn.eq_of_escaped {n s : String} (hs : IsOwn s) (h : escaped n = .ok (.plain s)) :
    n = s := by
  unfold escaped at h
  split at h
  · rename_i hkeyword
    exact absurd (eq_of_ofName_plain h).symm (hs.ne_escaped n hkeyword)
  · split at h
    · refine absurd ?_ hs.not_mem
      rw [← eq_of_ofName_plain h, String.toList_append]
      exact List.mem_append_left _ (by decide)
    · exact eq_of_ofName_plain h

end Ident

end Rust

namespace Client

open Code (Model RuntimeItem)

theorem UsedBy.method_cases {m : Model} {n : String} (h : UsedBy m (.method n)) :
    n = "to_input_value" ∧ .toInputValue ∈ m.dependencies.runtime ∨
      (∃ param, n = "with_" ++ param) ∨
      n = "send" ∧ .transport ∈ m.dependencies.runtime ∧ ∃ cls, m.artifact = .service cls := by
  cases h with
  | uses h =>
      cases h with
      | conversion h => exact .inl ⟨rfl, h⟩
      | setter hn => exact .inr (.inl ⟨_, hn⟩)
  | sending h hruntime => exact .inr (.inr ⟨rfl, hruntime, _, h⟩)

theorem ne_setter {n : String} (hn : n.toList.head? ≠ some 'w') (param : String) :
    n ≠ "with_" ++ param := by
  rintro rfl
  rw [String.toList_append] at hn
  exact hn rfl

theorem UsedBy.of_conversion {m : Model} (h : UsedBy m (.method "to_input_value")) :
    .toInputValue ∈ m.dependencies.runtime := by
  rcases h.method_cases with ⟨_, hruntime⟩ | ⟨param, hn⟩ | ⟨hn, _⟩
  · exact hruntime
  · exact absurd hn (ne_setter (by decide) param)
  · exact absurd hn (by decide)

theorem UsedBy.of_sending {m : Model} (h : UsedBy m (.method "send")) :
    .transport ∈ m.dependencies.runtime ∧ ∃ cls, m.artifact = .service cls := by
  rcases h.method_cases with ⟨hn, _⟩ | ⟨param, hn⟩ | ⟨_, hsending⟩
  · exact absurd hn (by decide)
  · exact absurd hn (ne_setter (by decide) param)
  · exact hsending

end Client

namespace Rust

open Code (RuntimeItem)

section

variable {home : Namespace} {m : Code.Model} {file : File}

/-- Whatever is called was asked for by the item, apart from the methods that all items of a kind
call. -/
theorem mem_uses_of_calls (h : itemFile home m = .ok file) {n : String} (hn : Ident.IsOwn n)
    (hother : n ∉ ownMethods) (hcalls : file.Calls n) : .method n ∈ m.uses := by
  obtain ⟨_, imports, items, _, hitems, hfile⟩ := itemFile_ok h
  have himported : .method (.plain n) ∉ imports.items.flatMap (·.mentions) := by
    intro hmem
    obtain ⟨item, hitem, hmem⟩ := List.mem_flatMap.mp hmem
    obtain ⟨path, names, rfl⟩ := imports.exists_use_of_mem_items hitem
    obtain ⟨_, _, hname⟩ := List.mem_map.mp hmem
    cases hname
  rw [File.Calls, hfile, List.flatMap_append, List.mem_append] at hcalls
  cases imports.accounts_declarations hitems _ (hcalls.resolve_left himported) with
  | method huse hescaped => exact hn.eq_of_escaped hescaped ▸ huse
  | own hown => exact absurd hown hother

/-! ## Imports -/

/-- The items of the client library whose methods are called. -/
def traits : List RuntimeItem := [.toInputValue, .transport]

theorem ne_marker {item : RuntimeItem} (h : item ∈ traits) (name : String) :
    item.name ≠ name ++ "Tag" := by
  have hlast : ∀ item ∈ traits, item.name.toList.getLast? ≠ some 'g' := by decide
  intro hname
  refine hlast item h ?_
  rw [hname, String.toList_append]
  exact List.getLast?_append_of_ne_nil _ (by decide)

/-- A trait is free to be imported unless the item of the file has its name. -/
theorem trait_mem_names_iff {item : RuntimeItem} (h : item ∈ traits) :
    item.name ∈ reservedNames ++ definedNames m ↔ m.name = item.name := by
  have hreserved : ∀ item ∈ traits, item.name ∉ reservedNames := by decide
  rw [definedNames_eq, List.mem_append, List.mem_cons, mem_definedNames_tail]
  constructor
  · rintro (hmem | hname | ⟨hname, _⟩)
    · exact absurd hmem (hreserved item h)
    · exact hname.symm
    · exact absurd hname (ne_marker h m.name)
  · exact fun hname => .inr (.inl hname.symm)

theorem importsByName_iff (hm : IsItemName m) (h : itemFile home m = .ok file)
    {item : RuntimeItem} (hitem : item ∈ traits) (hruntime : item ∈ m.dependencies.runtime) :
    file.ImportsByName item ↔ m.name ≠ item.name := by
  obtain ⟨imports, hnames⟩ := shortNames_of_itemFile hm h
  obtain ⟨_, imports', items, himports, hitems, hfile⟩ := itemFile_ok h
  cases himports.symm.trans hnames.table
  obtain ⟨_, _, _, _, _, _, hfilter⟩ := Imports.of_ok hnames.table
  constructor
  · -- The table starts with the name of the item, so nothing is imported under that name.
    rintro ⟨names, huse, hmem⟩ hname
    have htaken := (trait_mem_names_iff hitem).mpr hname
    have hbrought : item.name ∈ file.brought :=
      List.mem_map.mpr ⟨_, List.mem_flatMap.mpr ⟨_, huse, hmem⟩, rfl⟩
    rcases (hnames.brought item.name).mp hbrought with hmem | ⟨path, i, hshort, hi⟩
    · obtain ⟨other, hother, hsame⟩ := List.mem_map.mp hmem
      rw [hfilter] at hother
      exact of_decide_eq_true (List.mem_filter.mp hother).2 (hsame ▸ htaken)
    · exact hnames.guarded path i hshort (hi ▸ List.mem_append_left _ htaken)
  · intro hname
    have hmem : item ∈ imports.runtime := by
      rw [hfilter]
      exact List.mem_filter.mpr ⟨hruntime,
        decide_eq_true fun htaken => hname ((trait_mem_names_iff hitem).mp htaken)⟩
    refine ⟨imports.runtime.map fun item => .plain item.name, ?_, List.mem_map_of_mem hmem⟩
    rw [hfile, Imports.items, if_neg (by simpa using List.ne_nil_of_mem hmem)]
    exact List.mem_append_left _ (List.mem_append_left _ (List.mem_singleton_self _))

theorem IsItemName.ne_transport (hm : IsItemName m) {cls : Code.Class}
    (h : m.artifact = .service cls) : m.name ≠ RuntimeItem.transport.name := by
  obtain ⟨short, hname⟩ := hm.service cls h
  rw [hname]
  intro heq
  have hlast := congrArg (·.toList.getLast?) heq
  rw [String.toList_append, List.getLast?_append_of_ne_nil _ (by decide)] at hlast
  exact absurd hlast (by decide)

end

/-- Every file that sends a request imports the trait for it. So does every file that converts
values, unless it is that of an item with the name of the trait. -/
theorem itemFile_traits {home : Namespace} {substitutions : Substitutions} {text : String}
    {r : Registry} {warnings : List Warning} {ms : List Code.Model}
    (hr : registryOfText home substitutions text = .ok (r, warnings))
    (hms : Client.models r = .ok ms) {m : Code.Model} (hm : m ∈ ms) {file : File}
    (hfile : itemFile r.home m = .ok file) :
    (file.Calls "send" → file.ImportsByName .transport) ∧
      (file.Calls "to_input_value" →
        (file.ImportsByName .toInputValue ↔ m.name ≠ RuntimeItem.toInputValue.name)) := by
  have hname := isItemName_of_mem hr hms m hm
  obtain ⟨part, hemits⟩ := (Client.mem_models hms).mp hm
  constructor
  · intro hcalls
    have huse := mem_uses_of_calls hfile (by decide) (by decide) hcalls
    obtain ⟨hruntime, cls, hartifact⟩ := (hemits.usedBy _ huse).of_sending
    exact (importsByName_iff hname hfile (by decide) hruntime).mpr (hname.ne_transport hartifact)
  · intro hcalls
    have huse := mem_uses_of_calls hfile (by decide) (by decide) hcalls
    have hruntime := (hemits.usedBy _ huse).of_conversion
    exact importsByName_iff hname hfile (by decide) hruntime

/-- A service with an operation that has an argument. -/
def lookup : String := "type Query \x7b user(id: ID!): Int \x7d"

theorem itemFile_traits_lookup : ∃ r warnings ms m file,
    registryOfText .default [] lookup = .ok (r, warnings) ∧ Client.models r = .ok ms ∧ m ∈ ms ∧
    itemFile r.home m = .ok file ∧ file.Calls "send" ∧ file.Calls "to_input_value" ∧
    file.ImportsByName .transport ∧ file.ImportsByName .toInputValue := by
  have hrun : Outcome.any (registryOfText .default [] lookup) (fun out =>
      Outcome.any (Client.models out.1) fun ms => ms.any fun m =>
        Outcome.any (itemFile out.1.home m) fun file => file.Calls "send" &&
          file.Calls "to_input_value" && m.name ≠ RuntimeItem.toInputValue.name) = true := by
    decide +kernel
  obtain ⟨⟨r, warnings⟩, hr, hrun⟩ := Outcome.any_eq_true.mp hrun
  obtain ⟨ms, hms, hrun⟩ := Outcome.any_eq_true.mp hrun
  obtain ⟨m, hm, hrun⟩ := List.any_eq_true.mp hrun
  obtain ⟨file, hfile, htest⟩ := Outcome.any_eq_true.mp hrun
  simp only [Bool.and_eq_true, decide_eq_true_eq] at htest
  obtain ⟨⟨hsends, hconverts⟩, hname⟩ := htest
  obtain ⟨htransport, htoInput⟩ := itemFile_traits hr hms hm hfile
  exact ⟨r, warnings, ms, m, file, hr, hms, hm, hfile, hsends, hconverts, htransport hsends,
    (htoInput hconverts).mpr hname⟩

/-- An input object with the name of the trait that converts values. -/
def namesake : String :=
  "type Query \x7b a(x: ToInputValue): Int \x7d input ToInputValue \x7b b: Int! \x7d"

/-- Values can be converted in a file into which the trait for it has not been imported. -/
theorem exists_calls_not_importsByName : ∃ r warnings ms m file,
    registryOfText .default [] namesake = .ok (r, warnings) ∧ Client.models r = .ok ms ∧ m ∈ ms ∧
    itemFile r.home m = .ok file ∧ file.Calls "to_input_value" ∧
    ¬ file.ImportsByName .toInputValue := by
  have hrun : Outcome.any (registryOfText .default [] namesake) (fun out =>
      Outcome.any (Client.models out.1) fun ms => ms.any fun m =>
        Outcome.any (itemFile out.1.home m) fun file => file.Calls "to_input_value" &&
          m.name = RuntimeItem.toInputValue.name &&
          RuntimeItem.toInputValue ∈ m.dependencies.runtime) = true := by
    decide +kernel
  obtain ⟨⟨r, warnings⟩, hr, hrun⟩ := Outcome.any_eq_true.mp hrun
  obtain ⟨ms, hms, hrun⟩ := Outcome.any_eq_true.mp hrun
  obtain ⟨m, hm, hrun⟩ := List.any_eq_true.mp hrun
  obtain ⟨file, hfile, htest⟩ := Outcome.any_eq_true.mp hrun
  simp only [Bool.and_eq_true, decide_eq_true_eq] at htest
  obtain ⟨⟨hcalls, hname⟩, hruntime⟩ := htest
  have hiff := importsByName_iff (isItemName_of_mem hr hms m hm) hfile (by decide) hruntime
  exact ⟨r, warnings, ms, m, file, hr, hms, hm, hfile, hcalls, fun h => hiff.mp h hname⟩

end Rust

end Graphwright
