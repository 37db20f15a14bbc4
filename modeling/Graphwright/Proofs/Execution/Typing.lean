import Graphwright.Proofs.Client.FiniteSize
import Graphwright.Proofs.Execution.Items

/-!
# Types of decoded values

What a property of an output object is declared to hold, what the factory decodes for it and what
its getter hands out have one type, with the boxes of the decoder where those of the type are. What
a method of the service returns and what it decodes have one type as well. At the bottom of each of
these decoders stands the one for what the innermost name of the schema type is registered as.
-/
namespace Graphwright

namespace Code

/-! ## Boxes -/

/-- How many layers stand around each box of a type. -/
def TypeExpr.boxDepths : TypeExpr → List Nat
  | boxed inner => 0 :: inner.boxDepths.map (· + 1)
  | list element => element.boxDepths.map (· + 1)
  | nullable inner => inner.boxDepths.map (· + 1)
  | hydrated inner => inner.boxDepths.map (· + 1)
  | _ => []

namespace Decoder

def boxDepths : Decoder → List Nat
  | boxed inner => 0 :: inner.boxDepths.map (· + 1)
  | list element => element.boxDepths.map (· + 1)
  | nullable inner => inner.boxDepths.map (· + 1)
  | _ => []

theorem boxDepths_type (d : Decoder) : d.type.boxDepths = d.boxDepths := by
  induction d with
  | list element ih => simp only [type, TypeExpr.boxDepths, boxDepths, ih]
  | nullable inner ih => simp only [type, TypeExpr.boxDepths, boxDepths, ih]
  | boxed inner ih => simp only [type, TypeExpr.boxDepths, boxDepths, ih]
  | _ => rfl

/-! ## Leaves -/

/-- The decoder under all layers. -/
def leaf : Decoder → Decoder
  | list element => element.leaf
  | nullable inner => inner.leaf
  | boxed inner => inner.leaf
  | decoder => decoder

theorem leaf_onHeap (d : Decoder) : d.onHeap.leaf = d.leaf := by
  cases d <;> rfl

theorem leaf_ofTarget {context : String} {target : Target} {d : Decoder}
    (h : ofTarget context target = .ok d) : d.leaf = d := by
  cases target with
  | builtin p => cases h; rfl
  | registered name category path => cases category <;> cases h <;> rfl

theorem ofTarget_leaf {context : String} {t : ResolvedType} {d : Decoder}
    (h : ofResolved context t = .ok d) : ofTarget context t.base = .ok d.leaf := by
  induction t generalizing d with
  | named isNullable target =>
      obtain ⟨d', hd', h⟩ := Outcome.bind_ok.mp h
      cases h
      have hleaf : ofTarget context target = .ok d'.leaf := by rw [leaf_ofTarget hd', hd']
      cases isNullable <;> exact hleaf
  | list isNullable element ih =>
      obtain ⟨d', hd', h⟩ := Outcome.bind_ok.mp h
      cases h
      have hleaf : ofTarget context element.base = .ok d'.leaf := ih hd'
      cases isNullable <;> exact hleaf

end Decoder

end Code

namespace Execution

open Code (Model Method Stmt Expr TypeExpr Property)
open Client (OutputMember MembersOf)

/-- The decoder for values of what a name is registered as. -/
inductive LeafOf (r : Registry) (name : String) : Code.Decoder → Prop
  | scalar {p} (h : Primitive.ofName? name = some p) : LeafOf r name (.scalar p)
  | enumeration {t} (h : r.find? name = some t) (hc : t.category = .enumeration) :
      LeafOf r name (.enumeration t.artifactPath)
  | customScalar {t} (h : r.find? name = some t) (hc : t.category = .customScalar) :
      LeafOf r name (.customScalar t.artifactPath)
  | object {t} (h : r.find? name = some t) (hc : t.category = .outputObject) :
      LeafOf r name (.object t.artifactPath)
  | interface {t} (h : r.find? name = some t) (hc : t.category = .interface)
      (hs : t.isSubstituted = true) : LeafOf r name (.object t.artifactPath)

theorem leafOf_of_ofTarget {r : Registry} {name context : String} {target : Target}
    {d : Code.Decoder} (ht : r.target? name = some target) (hc : Client.ConcreteBase r target)
    (h : Code.Decoder.ofTarget context target = .ok d) : LeafOf r name d := by
  cases target with
  | builtin p =>
      cases h
      exact .scalar (Registry.target?_eq_builtin ht)
  | registered n category path =>
      obtain ⟨rfl, t, hf, rfl, rfl⟩ := Registry.target?_eq_registered ht
      obtain ⟨t', hf', hcategory, _, hconcrete⟩ := hc
      cases hf.symm.trans hf'
      cases hcat : t.category <;> rw [hcat] at h <;> cases h
      · exact .customScalar hf hcat
      · exact .enumeration hf hcat
      · exact .object hf hcat
      · exact .interface hf hcat (hconcrete.2 hcat)

/-! ## Decoders of a type -/

/-- The decoder yields values of type `T`, boxed where `T` is, from what it reads as values of the
innermost name of a schema type. -/
structure Decodes (r : Registry) (type : Schema.TypeRef) (d : Code.Decoder) (T : TypeExpr) :
    Prop where
  type_eq : d.type = T
  boxes : d.boxDepths = T.boxDepths
  leaf : LeafOf r type.baseName d.leaf

theorem decodes_of_ok {r : Registry} {type : Schema.TypeRef} {context context' : String}
    {resolved : ResolvedType} {d : Code.Decoder}
    (hres : Client.resolveConcrete r type context = .ok resolved)
    (hd : Code.Decoder.ofResolved context' resolved = .ok d) :
    Decodes r type d (.ofResolved resolved) := by
  obtain ⟨hlayer, hbase⟩ := Client.resolveConcrete_ok.mp hres
  have htype := Code.Decoder.type_ofResolved hd
  exact ⟨htype, by rw [← htype, Code.Decoder.boxDepths_type],
    leafOf_of_ofTarget (Registry.resolve_base hlayer) hbase (Code.Decoder.ofTarget_leaf hd)⟩

theorem Decodes.onHeap {r : Registry} {type : Schema.TypeRef} {d : Code.Decoder} {T : TypeExpr}
    (h : Decodes r type d T) : Decodes r type d.onHeap T.onHeap := by
  have htype : d.onHeap.type = T.onHeap := by rw [Code.Decoder.type_onHeap, h.type_eq]
  refine ⟨htype, by rw [← htype, Code.Decoder.boxDepths_type], ?_⟩
  rw [Code.Decoder.leaf_onHeap]
  exact h.leaf

/-- A member is boxed in its type exactly if it is in its decoder. -/
theorem decodes_of_isEmitted {r : Registry} {owner : String} {m : OutputMember}
    (h : m.IsEmitted r owner) : Decodes r m.field.type m.decoder m.type := by
  obtain ⟨context, resolved, d, hres, hd, e⟩ := h
  have hdecodes := decodes_of_ok hres hd
  rw [e, Client.outputMember]
  dsimp only
  split
  · exact hdecodes.onHeap
  · exact hdecodes

/-! ## Output objects -/

theorem nodup_objectMethods {r : Registry} {owner : String} {fields : List Schema.Field}
    {members : List OutputMember} (h : MembersOf r owner fields members) :
    ((Client.objectMethods owner members).map (·.name)).Nodup := by
  have hmap : (Client.objectMethods owner members).map (·.name) =
      Client.initializerName :: members.map (·.name) ++ [Client.factoryName] := by
    simp [Client.objectMethods, Client.initializer, Client.factory, OutputMember.getter,
      Client.borrowing, Function.comp_def]
  rw [hmap, List.cons_append, List.nodup_cons, List.mem_append, List.nodup_append]
  have hinitializer : Client.initializerName ∉ members.map (·.name) := fun hn => by
    obtain ⟨m, hm, e⟩ := List.mem_map.mp hn
    exact (h.isFree m hm).1 e
  have hfactory : ∀ name ∈ members.map (·.name), name ≠ Client.factoryName := fun name hn => by
    obtain ⟨m, hm, rfl⟩ := List.mem_map.mp hn
    exact (h.isFree m hm).2
  refine ⟨?_, h.nodup, by simp, by simpa using hfactory⟩
  rintro (hn | hn)
  · exact hinitializer hn
  · exact absurd (List.mem_singleton.mp hn) (by decide)

/-- What the client says of a field of an output object, of which `methods` are the methods and
`factory` is what the factory among them does: the property is a slot for values of type `T`, one
step of the factory fills it with what `d` reads under the field's name, and one getter reads values
of type `T` from it and returns them. -/
structure FieldTyped (r : Registry) (methods : List Method) (factory : Factory) (f : Schema.Field)
    (p : Property) (T : TypeExpr) (d : Code.Decoder) : Prop where
  wireName : p.wireName = f.name
  property : p.type = .hydrated T
  step : factory.steps.filter (·.slot = p.name) = [⟨p.name, f.name, d⟩]
  getter : ∃ g, methods.filter (·.name = p.name) = [g] ∧ g.returns = .borrowed T ∧
    g.body = [.return (.readHydrated p.name f.name T)]
  decodes : Decodes r f.type d T

theorem fieldTyped_of_member {r : Registry} {owner : String} {fields : List Schema.Field}
    {members : List OutputMember} (h : MembersOf r owner fields members) {m : OutputMember}
    (hm : m ∈ members) :
    FieldTyped r (Client.objectMethods owner members) (.ofMembers members) m.field m.property
      m.type m.decoder where
  wireName := rfl
  property := rfl
  step := by
    have hnodup : ((Factory.ofMembers members).steps.map (·.slot)).Nodup := by
      rw [Factory.ofMembers, List.map_map]
      exact h.nodup
    exact Entries.filter_eq_singleton hnodup (a := ⟨m.name, m.field.name, m.decoder⟩)
      (List.mem_map.mpr ⟨m, hm, rfl⟩)
  getter := by
    have hmem : m.getter ∈ Client.objectMethods owner members :=
      List.mem_append_left _ (List.mem_cons_of_mem _ (List.mem_map_of_mem hm))
    exact ⟨m.getter, Entries.filter_eq_singleton (nodup_objectMethods h) hmem, rfl, rfl⟩
  decodes := decodes_of_isEmitted (h.isEmitted m hm)

/-! ## The service -/

/-- What the statements of a method return. -/
def returned (body : List Stmt) : List Expr :=
  body.filterMap fun
    | .return value => some value
    | _ => none

/-- What the client says of an operation: the method returns values of type `T` or fails, and what
it returns is what `d` reads under the operation's name in the response. -/
structure OperationTyped (r : Registry) (f : Schema.Field) (method : Method) (T : TypeExpr)
    (d : Code.Decoder) : Prop where
  returns : method.returns = .fallible T
  result : returned method.body =
    [.decode (.borrow (.var Client.responseLocal)) f.name d .required]
  decodes : Decodes r f.type d T

theorem returned_setup (args : List Client.ArgumentParam) :
    returned (Client.ArgumentPlan.ofParams args).setup = [] := by
  unfold Client.ArgumentPlan.ofParams
  dsimp only
  split
  · rfl
  · rw [returned, List.filterMap_cons, List.filterMap_map]
    simp

theorem operationTyped_of_ok {r : Registry} {service : String} {kind : OperationKind}
    {f : Schema.Field} {member : Client.ServiceMember}
    (h : Client.operationMember r service kind f = .ok member) :
    ∃ T d, OperationTyped r f member.method T d := by
  obtain ⟨_, resolved, d, args, hres, hd, _, rfl⟩ := Client.operationMember_ok h
  refine ⟨_, d, rfl, ?_, decodes_of_ok hres hd⟩
  rw [Client.serviceMember, returned, List.filterMap_append]
  change returned _ ++ _ = _
  rw [returned_setup]
  rfl

/-! ## Items -/

/-- Types and decoders agree in an item: for every field of the schema type that an output object
stands for, and for every operation of a service. -/
structure Typed (r : Registry) (m : Model) : Prop where
  object : ∀ properties methods conformances,
    m.artifact = .outputObject properties methods conformances →
    ∃ t ∈ Client.primary r .outputObject, m.typeName = t.name ∧
      ∃ factory, Factory.ofMethods? methods = some factory ∧
      List.Forall₂ (fun f p => ∃ T d, FieldTyped r methods factory f p T d)
        (Registry.fieldsOf t.definition.shape) properties
  service : ∀ cls, m.artifact = .service cls →
    List.Forall₂ (fun o method => ∃ T d, OperationTyped r o.2 method T d)
      (Client.operations r) cls.methods

theorem Typed.of_ne {r : Registry} {m : Model}
    (ho : ∀ properties methods conformances,
      m.artifact ≠ .outputObject properties methods conformances)
    (hs : ∀ cls, m.artifact ≠ .service cls) : Typed r m :=
  ⟨fun _ _ _ e => absurd e (ho _ _ _), fun _ e => absurd e (hs _)⟩

theorem typed_of_outputObject {r : Registry} {t : RegisteredType} {m : Model}
    (ht : t ∈ Client.primary r .outputObject)
    (h : Client.outputObject r t (Client.interfacesOf t.definition.shape)
      (Registry.fieldsOf t.definition.shape) = .ok m) : Typed r m := by
  obtain ⟨members, conformances, hmembers, _, rfl⟩ := Client.outputObject_ok h
  refine ⟨fun properties methods conformances e => ?_, fun _ e => (nomatch e)⟩
  cases e
  refine ⟨t, ht, rfl, .ofMembers members, Factory.ofMethods?_emitted hmembers, ?_⟩
  rw [← hmembers.fields_eq, List.forall₂_map_left_iff, List.forall₂_map_right_iff,
    List.forall₂_same]
  exact fun m hm => ⟨m.type, m.decoder, fieldTyped_of_member hmembers hm⟩

theorem typed_of_service {r : Registry} {m : Model} (h : Client.service r = .ok m) :
    Typed r m := by
  obtain ⟨members, hmembers, hartifact⟩ := Client.service_members h
  refine ⟨fun _ _ _ e => (nomatch hartifact.symm.trans e), fun cls e => ?_⟩
  cases hartifact.symm.trans e
  rw [List.forall₂_map_right_iff]
  exact hmembers.for_operations.imp fun _ _ => operationTyped_of_ok

theorem typed_of_emits {r : Registry} {part : Client.Part} {m : Model}
    (h : Client.Emits r part m) : Typed r m := by
  have hpart := h.part_eq
  cases h with
  | outputObject ht h => exact typed_of_outputObject ht h
  | service h => exact typed_of_service h
  | _ =>
      refine .of_ne (fun _ _ _ e => ?_) fun _ e => ?_
      all_goals
        rw [e] at hpart
        cases hpart

/-- Types and decoders agree in every item of a client. -/
theorem models_typed {r : Registry} {ms : List Model} (h : Client.models r = .ok ms) :
    ∀ m ∈ ms, Typed r m := by
  intro m hm
  obtain ⟨part, hemits⟩ := (Client.mem_models h).mp hm
  exact typed_of_emits hemits

/-- Books have a sequel, which is boxed, and an author, for whom there is a hand-written item. -/
theorem models_typed_library : ∃ r warnings ms,
    Registry.build Client.library .default [("Person", "crate::people::Person")]
      = .ok (r, warnings) ∧ Client.models r = .ok ms ∧
    (∃ m ∈ ms,
      ["author", "sequel"].map (fun name => (m.properties.find? (·.wireName = name)).map (·.type)) =
        [some (.hydrated (.nullable (.named "crate::people::Person"))),
          some (.hydrated (.nullable (.boxed (.named "crate::graphql::types::Book"))))]) ∧
    ∀ m ∈ ms, Typed r m := by
  have hrun : Outcome.any
      (Registry.build Client.library .default [("Person", "crate::people::Person")]) (fun out =>
        Outcome.any (Client.models out.1) fun ms => ms.any fun m =>
          ["author", "sequel"].map (fun name =>
              (m.properties.find? (·.wireName = name)).map (·.type))
            = [some (.hydrated (.nullable (.named "crate::people::Person"))),
              some (.hydrated (.nullable (.boxed (.named "crate::graphql::types::Book"))))])
        = true := by
    decide +kernel
  obtain ⟨⟨r, warnings⟩, hr, hrun⟩ := Outcome.any_eq_true.mp hrun
  obtain ⟨ms, h, hany⟩ := Outcome.any_eq_true.mp hrun
  refine ⟨r, warnings, ms, hr, h, ?_, models_typed h⟩
  obtain ⟨m, hm, htest⟩ := List.any_eq_true.mp hany
  exact ⟨m, hm, of_decide_eq_true htest⟩

end Execution

end Graphwright
