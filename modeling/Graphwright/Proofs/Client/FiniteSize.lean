import Graphwright.Proofs.Client.OutputObject
import Graphwright.Proofs.Client.Reachability

/-!
# Generated objects have a finite size

An object stores another by value if one of its properties holds it through slots and nullable
layers alone. With the boxes that are put in field by field, no object contains itself however
deep; and a box is only where the field would otherwise be on a cycle.
-/
namespace Graphwright

namespace Code

namespace TypeExpr

/-- The item that a value of the type has inside it, with no list and no box in between. -/
def heldPath? : TypeExpr → Option String
  | named path => some path
  | nullable inner => inner.heldPath?
  | hydrated inner => inner.heldPath?
  | _ => none

def hasBox : TypeExpr → Bool
  | boxed _ => true
  | list element => element.hasBox
  | nullable inner => inner.hasBox
  | hydrated inner => inner.hasBox
  | _ => false

/-- The type without its boxes. -/
def unboxed : TypeExpr → TypeExpr
  | boxed inner => inner.unboxed
  | list element => list element.unboxed
  | nullable inner => nullable inner.unboxed
  | hydrated inner => hydrated inner.unboxed
  | type => type

theorem heldPath?_onHeap (t : TypeExpr) : t.onHeap.heldPath? = none := by
  cases t <;> rfl

theorem unboxed_onHeap (t : TypeExpr) : t.onHeap.unboxed = t.unboxed := by
  cases t <;> rfl

theorem unboxed_ofResolved (t : ResolvedType) : (ofResolved t).unboxed = ofResolved t := by
  induction t with
  | named isNullable target => cases target <;> cases isNullable <;> rfl
  | list isNullable element ih => cases isNullable <;> simp [ofResolved, unboxed, ih]

theorem hasBox_ofResolved (t : ResolvedType) : (ofResolved t).hasBox = false := by
  induction t with
  | named isNullable target => cases target <;> cases isNullable <;> rfl
  | list isNullable element ih => cases isNullable <;> simp [ofResolved, hasBox, ih]

theorem heldPath?_ofResolved (t : ResolvedType) :
    (ofResolved t).heldPath? = if t.isList then none else match t.base with
      | .builtin _ => none
      | .registered _ _ path => some path := by
  cases t with
  | named isNullable target => cases target <;> cases isNullable <;> rfl
  | list isNullable element => cases isNullable <;> rfl

end TypeExpr

def Model.properties (m : Model) : List Property :=
  match m.artifact with
  | .outputObject properties _ _ => properties
  | _ => []

end Code

namespace Client

open Code

/-- A property holds, as `view` sees types, the generated object `b`, which its field names. -/
def HoldsBy (view : TypeExpr → TypeExpr) (r : Registry) (m : Model) (p : Property) (b : String) :
    Prop :=
  ∃ t f, r.find? m.typeName = some t ∧ f ∈ Registry.fieldsOf t.definition.shape ∧
    f.name = p.wireName ∧ f.type.baseName = b ∧
    ∃ t' ∈ primary r .outputObject, t'.name = b ∧ (view p.type).heldPath? = some t'.generatedPath

/-- Of the items `ms`, that of `a` has a property which holds `b` by value. -/
def StoresBy (view : TypeExpr → TypeExpr) (r : Registry) (ms : List Model) (a b : String) : Prop :=
  ∃ m ∈ ms, m.typeName = a ∧ ∃ p ∈ m.properties, HoldsBy view r m p b

/-! ## What is held -/

/-- What a reference stores by value is the generated object that its type holds. -/
theorem inlineObject?_iff_held {home : Namespace} {r : Registry} (hr : r.WellFormed home)
    {type : Schema.TypeRef} {context : String} {resolved : ResolvedType}
    (h : r.resolve type context = .ok resolved) {b : String} :
    inlineObject? r resolved = some b ↔ type.baseName = b ∧ ∃ t ∈ primary r .outputObject,
      t.name = b ∧ (TypeExpr.ofResolved resolved).heldPath? = some t.generatedPath := by
  rw [inlineObject?_eq_some, TypeExpr.heldPath?_ofResolved]
  have htarget := Registry.resolve_base h
  constructor
  · rintro ⟨hl, path, t, hb, hf, hs⟩
    rw [hb] at htarget
    obtain ⟨rfl, t', hf', hc, rfl⟩ := Registry.target?_eq_registered htarget
    cases hf.symm.trans hf'
    obtain ⟨hmem, hn⟩ := Registry.mem_of_find? hf
    refine ⟨rfl, t, mem_primary.mpr ⟨hmem, hc, hs⟩, hn, ?_⟩
    have hsub : t.substitution = none := by simpa [RegisteredType.isSubstituted] using hs
    simp [hl, hb, RegisteredType.artifactPath, hsub]
  · rintro ⟨rfl, t, ht, hn, hp⟩
    obtain ⟨hmem, hc, hs⟩ := mem_primary.mp ht
    have hf := hr.find?_eq_some_iff.mpr ⟨hmem, hn⟩
    split at hp
    · cases hp
    · rename_i hl
      refine ⟨by simpa using hl, ?_⟩
      cases hb : resolved.base with
      | builtin p => rw [hb] at hp; cases hp
      | registered n c path =>
          rw [hb] at htarget
          obtain ⟨rfl, t', hf', rfl, rfl⟩ := Registry.target?_eq_registered htarget
          cases hf.symm.trans hf'
          rw [hc]
          exact ⟨_, t, rfl, hf, hs⟩

theorem stored_iff {r : Registry} {a b : String} {t : RegisteredType} (hf : r.find? a = some t)
    (hc : t.category = .outputObject) :
    Stored r a b ↔ ∃ f ∈ Registry.fieldsOf t.definition.shape, ∃ resolved,
      r.resolve f.type a = .ok resolved ∧ inlineObject? r resolved = some b := by
  unfold Stored inlineTargets
  cases hs : t.definition.shape with
  | object interfaces fields =>
      simp only [hf, hs, List.mem_filterMap, Registry.fieldsOf]
      constructor
      · rintro ⟨f, hfm, h⟩
        split at h
        · rename_i resolved hres
          exact ⟨f, hfm, resolved, hres, h⟩
        · cases h
      · rintro ⟨f, hfm, resolved, hres, h⟩
        exact ⟨f, hfm, by rw [hres]; exact h⟩
  | _ => simp [RegisteredType.category, Schema.Definition.category, hs, Schema.Shape.category] at hc

/-- What is stored by value is a generated object. -/
theorem exists_primary_of_stored {r : Registry} {a b : String} (h : Stored r a b) :
    ∃ t ∈ primary r .outputObject, t.name = b := by
  obtain ⟨_, _, _, _, _, _, _, _, path, t, hres, hf, hs⟩ := stored_iff_refersInline.mp h
  obtain ⟨hn, t', hf', hc, _⟩ := Registry.target?_eq_registered (Registry.resolve_base hres)
  rw [← hn] at hf'
  cases hf.symm.trans hf'
  obtain ⟨hmem, hn⟩ := Registry.mem_of_find? hf
  exact ⟨t, mem_primary.mpr ⟨hmem, hc, hs⟩, hn⟩

/-! ## Properties -/

section Properties

variable {home : Namespace} {r : Registry} {t : RegisteredType} {members : List OutputMember}
  {conformances : List Conformance} {member : OutputMember}

/-- The field that a property stands for is the one with its wire name. -/
theorem holdsBy_property_iff (hr : r.WellFormed home) (ht : t ∈ primary r .outputObject)
    (hmem : MembersOf r t.name (Registry.fieldsOf t.definition.shape) members)
    (hm : member ∈ members) {view : TypeExpr → TypeExpr} {b : String} :
    HoldsBy view r (outputModel t members conformances) member.property b ↔
      member.field.type.baseName = b ∧ ∃ t' ∈ primary r .outputObject,
        t'.name = b ∧ (view (.hydrated member.type)).heldPath? = some t'.generatedPath := by
  have hfind := hr.find?_name (mem_primary.mp ht).1
  have hfield : member.field ∈ Registry.fieldsOf t.definition.shape := by
    rw [← hmem.fields_eq]
    exact List.mem_map_of_mem hm
  constructor
  · rintro ⟨u, f, hu, hf, hw, hb, h⟩
    cases hfind.symm.trans hu
    rw [hmem.eq_of_name hfield hf hw.symm]
    exact ⟨hb, h⟩
  · rintro ⟨hb, h⟩
    exact ⟨t, member.field, hfind, hfield, rfl, hb, h⟩

/-- Without boxes a property holds what its field stores by value. -/
theorem holdsBy_unboxed_iff (hr : r.WellFormed home) (ht : t ∈ primary r .outputObject)
    (hmem : MembersOf r t.name (Registry.fieldsOf t.definition.shape) members)
    (hm : member ∈ members) {context : String} {resolved : ResolvedType} {decoder : Decoder}
    (hres : resolveConcrete r member.field.type context = .ok resolved)
    (he : member = outputMember r t.name member.field resolved decoder) {b : String} :
    HoldsBy .unboxed r (outputModel t members conformances) member.property b ↔
      inlineObject? r resolved = some b := by
  rw [holdsBy_property_iff hr ht hmem hm, inlineObject?_iff_held hr (resolveConcrete_ok.mp hres).1]
  have htype : (TypeExpr.hydrated member.type).unboxed = .hydrated (.ofResolved resolved) := by
    rw [he]
    simp only [outputMember, TypeExpr.unboxed]
    split
    · rw [TypeExpr.unboxed_onHeap, TypeExpr.unboxed_ofResolved]
    · rw [TypeExpr.unboxed_ofResolved]
  rw [htype]
  rfl

/-- A property holds what its field stores by value, unless it is boxed. -/
theorem holdsBy_id_iff (hr : r.WellFormed home) (ht : t ∈ primary r .outputObject)
    (hmem : MembersOf r t.name (Registry.fieldsOf t.definition.shape) members)
    (hm : member ∈ members) {context : String} {resolved : ResolvedType} {decoder : Decoder}
    (hres : resolveConcrete r member.field.type context = .ok resolved)
    (he : member = outputMember r t.name member.field resolved decoder) {b : String} :
    HoldsBy id r (outputModel t members conformances) member.property b ↔
      inlineObject? r resolved = some b ∧ isBoxed r t.name resolved = false := by
  rw [holdsBy_property_iff hr ht hmem hm, inlineObject?_iff_held hr (resolveConcrete_ok.mp hres).1]
  have htype : (TypeExpr.hydrated member.type).heldPath?
      = if isBoxed r t.name resolved then none else (TypeExpr.ofResolved resolved).heldPath? := by
    rw [he]
    simp only [outputMember, TypeExpr.heldPath?]
    split
    · exact TypeExpr.heldPath?_onHeap _
    · rfl
  rw [id, htype]
  cases isBoxed r t.name resolved <;> simp

theorem hasBox_property_iff {resolved : ResolvedType} {decoder : Decoder}
    (he : member = outputMember r t.name member.field resolved decoder) :
    member.property.type.hasBox = true ↔
      ∃ b, inlineObject? r resolved = some b ∧ reaches r b t.name = true := by
  have htype : member.property.type.hasBox = isBoxed r t.name resolved := by
    rw [he]
    simp only [OutputMember.property, outputMember, TypeExpr.hasBox]
    cases hx : isBoxed r t.name resolved
    · exact TypeExpr.hasBox_ofResolved resolved
    · cases TypeExpr.ofResolved resolved <;> rfl
  rw [htype, isBoxed]
  cases inlineObject? r resolved <;> simp

/-- What an object stores by value is what its properties hold without boxes. -/
theorem stored_iff_holdsBy (hr : r.WellFormed home) (ht : t ∈ primary r .outputObject)
    (hmem : MembersOf r t.name (Registry.fieldsOf t.definition.shape) members) {b : String} :
    Stored r t.name b ↔ ∃ member ∈ members,
      HoldsBy .unboxed r (outputModel t members conformances) member.property b := by
  obtain ⟨htypes, hc, _⟩ := mem_primary.mp ht
  rw [stored_iff (hr.find?_name htypes) hc]
  constructor
  · rintro ⟨f, hf, resolved, hres, hi⟩
    rw [← hmem.fields_eq] at hf
    obtain ⟨member, hm, rfl⟩ := List.mem_map.mp hf
    obtain ⟨context, resolved', decoder, hres', _, he⟩ := hmem.isEmitted member hm
    have hsame := Registry.resolve_context hres context
    rw [(resolveConcrete_ok.mp hres').1] at hsame
    cases hsame
    exact ⟨member, hm, (holdsBy_unboxed_iff hr ht hmem hm hres' he).mpr hi⟩
  · rintro ⟨member, hm, hh⟩
    obtain ⟨context, resolved, decoder, hres, _, he⟩ := hmem.isEmitted member hm
    refine ⟨member.field, ?_, resolved, ?_, (holdsBy_unboxed_iff hr ht hmem hm hres he).mp hh⟩
    · rw [← hmem.fields_eq]
      exact List.mem_map_of_mem hm
    · exact Registry.resolve_context (resolveConcrete_ok.mp hres).1 t.name

end Properties

/-! ## Cycles -/

section Cycles

variable {home : Namespace} {r : Registry} {ms : List Model}

theorem exists_member_of_property {m : Model} (h : outputObjects r = .ok ms) (hm : m ∈ ms)
    {p : Property} (hp : p ∈ m.properties) :
    ∃ t members conformances member, t ∈ primary r .outputObject ∧
      MembersOf r t.name (Registry.fieldsOf t.definition.shape) members ∧
      m = outputModel t members conformances ∧ member ∈ members ∧ p = member.property := by
  obtain ⟨t, ht, members, conformances, hmem, _, rfl⟩ :=
    Outcome.mem_of_forall₂' (outputObjects_ok h) m hm
  obtain ⟨member, hmember, rfl⟩ := List.mem_map.mp hp
  exact ⟨t, members, conformances, member, ht, hmem, rfl, hmember, rfl⟩

theorem storesBy_unboxed_iff (hr : r.WellFormed home) (h : outputObjects r = .ok ms)
    {a b : String} :
    StoresBy .unboxed r ms a b ↔ (∃ t ∈ primary r .outputObject, t.name = a) ∧ Stored r a b := by
  constructor
  · rintro ⟨m, hm, rfl, p, hp, hh⟩
    obtain ⟨t, members, conformances, member, ht, hmem, rfl, hmember, rfl⟩ :=
      exists_member_of_property h hm hp
    exact ⟨⟨t, ht, rfl⟩, (stored_iff_holdsBy hr ht hmem).mpr ⟨member, hmember, hh⟩⟩
  · rintro ⟨⟨t, ht, rfl⟩, hs⟩
    obtain ⟨m, hm, members, conformances, hmem, _, rfl⟩ :=
      Outcome.mem_of_forall₂ (outputObjects_ok h) t ht
    obtain ⟨member, hmember, hh⟩ := (stored_iff_holdsBy hr ht hmem).mp hs
    exact ⟨_, hm, rfl, member.property, List.mem_map_of_mem hmember, hh⟩

theorem stored_chain (hr : r.WellFormed home) (h : outputObjects r = .ok ms) {a b : String}
    (hc : Relation.ReflTransGen (StoresBy .unboxed r ms) a b) :
    Relation.ReflTransGen (Stored r) a b :=
  hc.lift id fun _ _ hs => ((storesBy_unboxed_iff hr h).mp hs).2

/-- A chain that starts at a generated object passes only through generated objects. -/
theorem storesBy_chain (hr : r.WellFormed home) (h : outputObjects r = .ok ms) {a b : String}
    (ha : ∃ t ∈ primary r .outputObject, t.name = a) (hc : Relation.ReflTransGen (Stored r) a b) :
    Relation.ReflTransGen (StoresBy .unboxed r ms) a b := by
  induction hc with
  | refl => exact .refl
  | @tail b c hc hs ih =>
      refine ih.tail ((storesBy_unboxed_iff hr h).mpr ⟨?_, hs⟩)
      rcases Relation.ReflTransGen.cases_tail hc with rfl | ⟨_, _, hs'⟩
      · exact ha
      · exact exists_primary_of_stored hs'

/-- With boxes, no chain leads back from what is stored. -/
theorem storesBy_id (hr : r.WellFormed home) (h : outputObjects r = .ok ms) {a b : String}
    (hs : StoresBy id r ms a b) :
    StoresBy .unboxed r ms a b ∧ ¬ Relation.ReflTransGen (Stored r) b a := by
  obtain ⟨m, hm, rfl, p, hp, hh⟩ := hs
  obtain ⟨t, members, conformances, member, ht, hmem, rfl, hmember, rfl⟩ :=
    exists_member_of_property h hm hp
  obtain ⟨context, resolved, decoder, hres, _, he⟩ := hmem.isEmitted member hmember
  obtain ⟨hi, hb⟩ := (holdsBy_id_iff hr ht hmem hmember hres he).mp hh
  refine ⟨⟨_, hm, rfl, _, hp, (holdsBy_unboxed_iff hr ht hmem hmember hres he).mpr hi⟩, ?_⟩
  intro hc
  rw [isBoxed, hi] at hb
  exact Bool.false_ne_true (hb.symm.trans (reaches_iff.mpr hc))

/-- Generated objects have a finite size: none stores itself by value, however deep. And a property
is boxed exactly if its field is on a cycle of what would be stored without boxes. -/
theorem finite_size {document : Schema.Document} {substitutions : Substitutions}
    {warnings : List Warning} (hr : Registry.build document home substitutions = .ok (r, warnings))
    (h : outputObjects r = .ok ms) :
    (∀ a, ¬ Relation.TransGen (StoresBy id r ms) a a) ∧
      ∀ m ∈ ms, ∀ p ∈ m.properties, p.type.hasBox = true ↔ ∃ b, HoldsBy .unboxed r m p b ∧
        Relation.ReflTransGen (StoresBy .unboxed r ms) b m.typeName := by
  have hw := Registry.wellFormed_of_build hr
  constructor
  · intro a hcycle
    obtain ⟨b, hs, hc⟩ := Relation.TransGen.head'_iff.mp hcycle
    have hc' : Relation.ReflTransGen (StoresBy .unboxed r ms) b a :=
      hc.lift id fun _ _ hs => (storesBy_id hw h hs).1
    exact (storesBy_id hw h hs).2 (stored_chain hw h hc')
  · intro m hm p hp
    obtain ⟨t, members, conformances, member, ht, hmem, rfl, hmember, rfl⟩ :=
      exists_member_of_property h hm hp
    obtain ⟨context, resolved, decoder, hres, _, he⟩ := hmem.isEmitted member hmember
    rw [hasBox_property_iff he]
    constructor
    · rintro ⟨b, hi, hb⟩
      have hh : HoldsBy .unboxed r (outputModel t members conformances) member.property b :=
        (holdsBy_unboxed_iff hw ht hmem hmember hres he).mpr hi
      have hs : Stored r t.name b := (stored_iff_holdsBy hw ht hmem).mpr ⟨member, hmember, hh⟩
      exact ⟨b, hh, storesBy_chain hw h (exists_primary_of_stored hs) (reaches_iff.mp hb)⟩
    · rintro ⟨b, hh, hc⟩
      have hi := (holdsBy_unboxed_iff hw ht hmem hmember hres he).mp hh
      exact ⟨b, hi, reaches_iff.mpr (stored_chain hw h hc)⟩

end Cycles

/-- Two objects that hold each other, of which one also holds itself. -/
def companies : Schema.Document where
  definitions := [
    ⟨"Person", none, .object [] [
      ⟨"boss", none, [], .named "Person"⟩,
      ⟨"colleagues", none, [], .nonNull (.list (.nonNull (.named "Person")))⟩,
      ⟨"company", none, [], .nonNull (.named "Company")⟩]⟩,
    ⟨"Company", none, .object [] [
      ⟨"name", none, [], .nonNull (.named "String")⟩,
      ⟨"owner", none, [], .named "Person"⟩]⟩]
  roots := {}

theorem finite_size_companies : ∃ r ws ms, Registry.build companies .default [] = .ok (r, ws) ∧
    outputObjects r = .ok ms ∧ (∃ m ∈ ms, ∃ p ∈ m.properties, p.type.hasBox = true) ∧
    (∀ a, ¬ Relation.TransGen (StoresBy id r ms) a a) ∧
      ∀ m ∈ ms, ∀ p ∈ m.properties, p.type.hasBox = true ↔ ∃ b, HoldsBy .unboxed r m p b ∧
        Relation.ReflTransGen (StoresBy .unboxed r ms) b m.typeName := by
  have hrun : Outcome.any (Registry.build companies .default []) (fun out =>
      Outcome.any (outputObjects out.1) fun ms =>
        ms.any fun m => m.properties.any (·.type.hasBox)) = true := by
    decide +kernel
  obtain ⟨⟨r, ws⟩, hr, hrun⟩ := Outcome.any_eq_true.mp hrun
  obtain ⟨ms, hms, hbox⟩ := Outcome.any_eq_true.mp hrun
  refine ⟨r, ws, ms, hr, hms, ?_, finite_size hr hms⟩
  obtain ⟨m, hm, hbox⟩ := List.any_eq_true.mp hbox
  obtain ⟨p, hp, hbox⟩ := List.any_eq_true.mp hbox
  exact ⟨m, hm, p, hp, hbox⟩

end Client

end Graphwright
