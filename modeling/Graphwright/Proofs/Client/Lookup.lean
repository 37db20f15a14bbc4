import Graphwright.Proofs.Client.Emission
import Graphwright.Proofs.Client.Reachability

/-!
# What generators ask of the types they look up

Generators look types up by name. Of a type that they find they use its name, its kind and its path,
whether a hand-written item replaces it, and, if it is an object, the types of its fields. So when
each type is replaced by one that is like it in these respects, references resolve as before, the
same fields are kept on the heap, and the same types get items.
-/
namespace Graphwright

/-- The second type is like the first one in what generators ask of types that they look up. -/
structure RegisteredType.Resembles (t t' : RegisteredType) : Prop where
  name : t'.name = t.name
  category : t'.category = t.category
  isSubstituted : t'.isSubstituted = t.isSubstituted
  artifactPath : t'.artifactPath = t.artifactPath
  fields : t.category = .outputObject →
    (Registry.fieldsOf t'.definition.shape).map (·.type) =
      (Registry.fieldsOf t.definition.shape).map (·.type)

/-- In the second registry each type of the first one is replaced by one that is like it. -/
structure Registry.Mirrors (g : RegisteredType → RegisteredType) (r r' : Registry) : Prop where
  index : r'.index = r.index
  types : r'.types = r.types.map g
  resembles : ∀ t : RegisteredType, t.Resembles (g t)

/-- What an object stores by value depends on its fields only through their types. -/
theorem Client.inlineTargets_of_find? {r : Registry} {name : String} {t : RegisteredType}
    (h : r.find? name = some t) : inlineTargets r name =
      if t.category = .outputObject then
        ((Registry.fieldsOf t.definition.shape).map (·.type)).filterMap fun type =>
          match r.resolve type name with
          | .ok resolved => inlineObject? r resolved
          | .error _ => none
      else [] := by
  unfold inlineTargets RegisteredType.category Schema.Definition.category
  rw [h]
  dsimp only
  cases t.definition.shape with
  | object interfaces fields =>
      simp only [Schema.Shape.category, if_true, Registry.fieldsOf, List.filterMap_map]
      rfl
  | _ => rfl

namespace Registry.Mirrors

variable {g : RegisteredType → RegisteredType} {r r' : Registry} (h : r.Mirrors g r')

include h

/-! ## References -/

theorem find?_eq (name : String) : r'.find? name = (r.find? name).map g := by
  rw [find?, find?, position?, h.index, h.types, ← position?]
  cases r.position? name with
  | none => rfl
  | some i => rw [Option.bind_some, Option.bind_some, List.getElem?_map]

theorem target?_eq (name : String) : r'.target? name = r.target? name := by
  unfold target?
  rw [h.find?_eq]
  cases r.find? name with
  | none => rfl
  | some t =>
      have ht := h.resembles t
      simp only [Option.map_some, ht.name, ht.category, ht.artifactPath]

theorem resolveLayer_eq (context : String) (nullable : Bool) (type : Schema.TypeRef) :
    r'.resolveLayer context nullable type = r.resolveLayer context nullable type := by
  induction type generalizing nullable with
  | named name => simp only [resolveLayer, h.target?_eq]
  | list element ih => simp only [resolveLayer, ih]
  | nonNull inner ih => exact ih false

theorem resolve_eq (type : Schema.TypeRef) (context : String) :
    r'.resolve type context = r.resolve type context := h.resolveLayer_eq context true type

theorem isSubstitutedInterface_eq (name : String) :
    Client.isSubstitutedInterface r' name = Client.isSubstitutedInterface r name := by
  unfold Client.isSubstitutedInterface
  rw [h.find?_eq]
  cases r.find? name with
  | none => rfl
  | some t =>
      have ht := h.resembles t
      simp only [Option.map_some, ht.category, ht.isSubstituted]

theorem resolveConcrete_eq (type : Schema.TypeRef) (context : String) :
    Client.resolveConcrete r' type context = Client.resolveConcrete r type context := by
  simp only [Client.resolveConcrete, h.resolve_eq, h.isSubstitutedInterface_eq]

/-! ## The heap -/

theorem inlineObject?_eq (resolved : ResolvedType) :
    Client.inlineObject? r' resolved = Client.inlineObject? r resolved := by
  unfold Client.inlineObject?
  cases resolved.base with
  | builtin primitive => rfl
  | registered name category path =>
      cases category with
      | outputObject =>
          dsimp only
          rw [h.find?_eq]
          cases r.find? name with
          | none => rfl
          | some t => simp only [Option.map_some, (h.resembles t).isSubstituted]
      | _ => rfl

theorem inlineTargets_eq (name : String) :
    Client.inlineTargets r' name = Client.inlineTargets r name := by
  have hfind := h.find?_eq name
  cases hr : r.find? name with
  | none =>
      rw [hr, Option.map_none] at hfind
      rw [Client.inlineTargets, Client.inlineTargets, hr, hfind]
  | some t =>
      rw [hr, Option.map_some] at hfind
      have ht := h.resembles t
      rw [Client.inlineTargets_of_find? hr, Client.inlineTargets_of_find? hfind, ht.category]
      split
      · rename_i hobject
        simp only [ht.fields hobject, h.resolve_eq, h.inlineObject?_eq]
      · rfl

theorem isBoxed_eq (owner : String) (resolved : ResolvedType) :
    Client.isBoxed r' owner resolved = Client.isBoxed r owner resolved := by
  have hstored : Client.Stored r' = Client.Stored r := by
    funext a b
    rw [Client.Stored, Client.Stored, h.inlineTargets_eq]
  have hreaches : ∀ start, Client.reaches r' start owner = Client.reaches r start owner := by
    intro start
    rw [Bool.eq_iff_iff, Client.reaches_iff, Client.reaches_iff, hstored]
  unfold Client.isBoxed
  rw [h.inlineObject?_eq]
  cases Client.inlineObject? r resolved with
  | none => rfl
  | some target => exact hreaches target

/-! ## Arguments -/

/-- Of an argument only its name, its type and whether it may be left out count. -/
theorem argumentParams_congr {arguments arguments' : List Schema.Input} (owner : String)
    (reserved : List String) (scope : Client.Members)
    (harguments : arguments'.map (fun a => (a.name, a.type, a.isOptional)) =
      arguments.map fun a => (a.name, a.type, a.isOptional)) :
    Client.argumentParams r' owner reserved scope arguments' =
      Client.argumentParams r owner reserved scope arguments := by
  induction arguments generalizing arguments' scope with
  | nil => rw [List.map_eq_nil_iff.mp harguments]; rfl
  | cons a rest ih =>
      obtain ⟨a', rest', rfl, ha, hrest⟩ := List.map_eq_cons_iff.mp harguments
      simp only [Prod.mk.injEq] at ha
      obtain ⟨hname, htype, hoptional⟩ := ha
      simp only [Client.argumentParams, hname, htype, hoptional, h.resolveConcrete_eq, ih _ hrest]

/-! ## Types that get items -/

theorem ofCategory_eq (category : Schema.Category) :
    r'.ofCategory category = (r.ofCategory category).map g := by
  have hcategory : ∀ t, (g t).category = t.category := fun t => (h.resembles t).category
  rw [ofCategory, h.types, List.filter_map]
  congr 2
  funext t
  simp [hcategory]

theorem primary_eq (category : Schema.Category) :
    Client.primary r' category = (Client.primary r category).map g := by
  have hsubstituted : ∀ t, (g t).isSubstituted = t.isSubstituted :=
    fun t => (h.resembles t).isSubstituted
  rw [Client.primary, h.ofCategory_eq, List.filter_map]
  congr 2
  funext t
  simp [hsubstituted]

theorem selectable_eq : Client.selectable r' = (Client.selectable r).map g := by
  have hsubstituted : ∀ t, (g t).isSubstituted = t.isSubstituted :=
    fun t => (h.resembles t).isSubstituted
  rw [Client.selectable, h.ofCategory_eq, h.ofCategory_eq, List.filter_map, Client.selectable,
    List.map_append]
  congr 3
  funext t
  simp [hsubstituted]

theorem subjects_eq (part : Client.Part) : part.subjects r' = (part.subjects r).map g := by
  cases part with
  | selectionBuilder => exact h.selectable_eq
  | service => rfl
  | _ => exact h.primary_eq _

theorem emissions_eq :
    Client.emissions r' = (Client.emissions r).map fun e => (e.1, g e.2) := by
  simp only [Client.emissions, List.map_flatMap, h.subjects_eq, List.map_map]
  rfl

end Registry.Mirrors

end Graphwright
