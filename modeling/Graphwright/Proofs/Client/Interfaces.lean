import Graphwright.Proofs.Client.Coverage
import Graphwright.Proofs.Execution.Typing

/-!
# Objects implement their interfaces

The methods with which an object implements an interface are the accessors that the interface's own
item declares, one for one. Each hands on what a getter of the object gives. That getter may borrow
from a box, or from a value that is never null where the accessor admits null: in any file the view
it gives is spelled as that of the accessor is, but for the option that the method puts around it.
-/
namespace Graphwright

open Code (TypeExpr)

namespace Rust.Imports

/-! ## Views -/

/-- The type of what is handed out when a value is borrowed. -/
def view (imports : Imports) (type : TypeExpr) : Except Failure Ty :=
  (·.1) <$> imports.borrowedView type

/-- The type of a view that is handed on, as it is or as one that there may be none of. -/
def handedOn (widened : Bool) (view : Ty) : Ty :=
  if widened then .standard "Option" [view] else view

variable (imports : Imports)

theorem view_named (path : String) :
    imports.view (.named path) = .reference false <$> imports.typeAt path := by
  have hpath : imports.ownedType (.named path) = imports.typeAt path := rfl
  simp only [view, borrowedView, hpath]
  cases imports.typeAt path <;> rfl

theorem view_nullable_named (path : String) :
    imports.view (.nullable (.named path)) = handedOn true <$> imports.view (.named path) := by
  have hpath : imports.ownedType (.named path) = imports.typeAt path := rfl
  rw [view_named]
  simp only [view, borrowedView, hpath]
  cases imports.typeAt path <;> rfl

/-- One looks through a box around an item. -/
theorem view_boxed_named (path : String) :
    imports.view (.boxed (.named path)) = imports.view (.named path) := by
  have hpath : imports.ownedType (.named path) = imports.typeAt path := rfl
  rw [view_named]
  simp only [view, borrowedView, hpath]
  cases imports.typeAt path <;> rfl

theorem view_nullable_boxed_named (path : String) :
    imports.view (.nullable (.boxed (.named path))) = imports.view (.nullable (.named path)) := by
  have hpath : imports.ownedType (.named path) = imports.typeAt path := rfl
  rw [view_nullable_named, view_named]
  simp only [view, borrowedView, hpath]
  cases imports.typeAt path <;> rfl

theorem view_nullable_list (element : TypeExpr) :
    imports.view (.nullable (.list element)) = handedOn true <$> imports.view (.list element) := by
  simp only [view, borrowedView]
  cases imports.ownedType element <;> rfl

theorem view_onHeap {resolved : ResolvedType} {name path : String} {category : Schema.Category}
    (hl : resolved.isList = false) (hb : resolved.base = .registered name category path) :
    imports.view (TypeExpr.ofResolved resolved).onHeap =
      imports.view (TypeExpr.ofResolved resolved) := by
  cases resolved with
  | list isNullable element => cases hl
  | named isNullable target =>
      cases hb
      cases isNullable with
      | true => exact imports.view_nullable_boxed_named path
      | false => exact imports.view_boxed_named path

/-- The view of a value that may be null is an option of the view of one that is there. -/
theorem view_widened {own : ResolvedType} (h : own.nullable = false) :
    imports.view (TypeExpr.ofResolved own.widened) =
      handedOn true <$> imports.view (TypeExpr.ofResolved own) := by
  cases own with
  | list isNullable element =>
      cases h
      exact imports.view_nullable_list _
  | named isNullable target =>
      cases h
      cases target with
      | builtin primitive => cases primitive <;> rfl
      | registered name category path => exact imports.view_nullable_named path

/-- A field that satisfies an accessor has the accessor's view. -/
theorem view_of_widening? {own required : ResolvedType} {widened : Bool}
    (h : Client.widening? own required = some widened) :
    imports.view (TypeExpr.ofResolved required) =
      handedOn widened <$> imports.view (TypeExpr.ofResolved own) := by
  rcases Client.eq_or_widened_of_widening? h with ⟨rfl, rfl⟩ | ⟨rfl, hnull, rfl⟩
  · exact (id_map _).symm
  · exact imports.view_widened hnull

end Rust.Imports

namespace Code

def Artifact.conformances : Artifact → List Conformance
  | outputObject _ _ conformances => conformances
  | _ => []

theorem Artifact.eq_of_conformances {a : Artifact} {c : Conformance} (h : a.conformances = [c]) :
    ∃ properties methods, a = .outputObject properties methods [c] := by
  cases a with
  | outputObject properties methods conformances => exact ⟨properties, methods, congrArg _ h⟩
  | _ => cases h

end Code

namespace Client

open Code

/-- What a getter hands out does not show whether the field is boxed. -/
theorem view_outputMember (imports : Rust.Imports) (r : Registry) (owner : String)
    (f : Schema.Field) (resolved : ResolvedType) (decoder : Decoder) :
    imports.view (outputMember r owner f resolved decoder).type =
      imports.view (TypeExpr.ofResolved resolved) := by
  unfold outputMember
  dsimp only
  split
  · rename_i hboxed
    unfold isBoxed at hboxed
    split at hboxed
    · rename_i target htarget
      obtain ⟨hl, path, _, hb, _, _⟩ := inlineObject?_eq_some.mp htarget
      exact imports.view_onHeap hl hb
    · cases hboxed
  · rfl

/-! ## Methods -/

/-- A method with which an object implements an accessor: it has the accessor's signature and hands
on what the one method of its name gives that the object has itself, a getter whose view is spelled
in any file as the accessor's is. -/
structure Delegates (methods : List Method) (accessor method : Method) : Prop where
  name : method.name = accessor.name
  receiver : method.receiver = accessor.receiver
  params : method.params = accessor.params
  returns : method.returns = accessor.returns
  getter : ∃ getter stored declared widened, methods.filter (·.name = method.name) = [getter] ∧
    getter.receiver = .borrowed ∧ getter.params = [] ∧ getter.returns = .borrowed stored ∧
    accessor.returns = .borrowed declared ∧
    method.body = [.return (.delegate getter.name widened)] ∧
    ∀ imports : Rust.Imports,
      imports.view declared = Rust.Imports.handedOn widened <$> imports.view stored

/-- The members of an object implement an accessor for a field that one of its own satisfies. -/
theorem delegates_of_widening? {r : Registry} {owner : String} {fields : List Schema.Field}
    {members : List OutputMember} (hmembers : MembersOf r owner fields members)
    {field required : Schema.Field} (hfield : fields.find? (·.name = required.name) = some field)
    {context : String} {ownType requiredType : ResolvedType} {widened : Bool}
    (hown : resolveConcrete r field.type context = .ok ownType)
    (hw : widening? ownType requiredType = some widened) :
    Delegates (objectMethods owner members)
      (borrowing (memberName required.name) required.description (.ofResolved requiredType) [])
      (borrowing (memberName required.name) none (.ofResolved requiredType)
        [.return (.delegate (memberName required.name) widened)]) := by
  have hname : field.name = required.name := by simpa using List.find?_some hfield
  have hmem : field ∈ members.map (·.field) := by
    rw [hmembers.fields_eq]
    exact List.mem_of_find?_eq_some hfield
  obtain ⟨m, hm, rfl⟩ := List.mem_map.mp hmem
  have hemitted := hmembers.isEmitted m hm
  have hgetter : m.name = memberName required.name := by rw [hemitted.name_eq, hname]
  obtain ⟨context', resolved, decoder, hresolved, _, e⟩ := hemitted
  -- the member was resolved in a context of its own, which shows in messages only
  cases (resolveConcrete_context hown context').symm.trans hresolved
  refine ⟨rfl, rfl, rfl, rfl, m.getter, m.type, .ofResolved requiredType, widened, ?_, rfl, rfl, rfl,
    rfl, by rw [← hgetter]; rfl, fun imports => ?_⟩
  · have hin : m.getter ∈ objectMethods owner members :=
      List.mem_append_left _ (List.mem_cons_of_mem _ (List.mem_map_of_mem hm))
    have hsingle := Entries.filter_eq_singleton (Execution.nodup_objectMethods hmembers) hin
    exact hgetter ▸ hsingle
  · rw [imports.view_of_widening? hw, e, view_outputMember]

/-- An interface and an object that implements it go through the interface's fields alike. -/
theorem delegates_of_ok {r : Registry} {owner interface : String} {fields required : List Schema.Field}
    {members : List OutputMember} (hmembers : MembersOf r owner fields members) {scope : Members}
    {found : List (Method × Option String)} {methods : List Method}
    (hfound : accessors r interface scope required = .ok found)
    (hmethods : conformingMethods r owner interface fields required = .ok methods) :
    List.Forall₂ (Delegates (objectMethods owner members)) (found.map (·.1)) methods := by
  rw [List.forall₂_map_left_iff]
  refine (Outcome.forall₂_of_common (accessors_ok hfound).1 (conformingMethods_ok hmethods)).imp ?_
  rintro _ _ ⟨f, ⟨context, resolved, hres, rfl⟩, field, requiredType, ownType, widened, hfield,
    ⟨context', hrequired⟩, ⟨_, hown⟩, hw, rfl⟩
  -- the type of the field was resolved twice, in contexts that show in messages only
  cases (resolveConcrete_context hres context').symm.trans hrequired
  exact delegates_of_widening? hmembers hfield hown hw

/-! ## Interfaces -/

/-- Among the items `ms` the one for the interface `name` stands at `path` and declares these
accessors. -/
structure Declares (home : Namespace) (ms : List Model) (name path : String)
    (accessors : List Method) : Prop where
  item : ∃ m ∈ ms, m.typeName = name ∧ Rust.itemPath home m = path ∧
    m.artifact = .interface accessors
  unique : ∀ m ∈ ms, m.typeName = name → ∀ others, m.artifact = .interface others →
    others = accessors

/-- The object of which `methods` are the methods implements the interface `name`. -/
def Implements (home : Namespace) (ms : List Model) (methods : List Method) (name : String)
    (c : Conformance) : Prop :=
  ∃ accessors, Declares home ms name c.interface accessors ∧
    List.Forall₂ (Delegates methods) accessors c.methods

theorem declares_of_primary {home : Namespace} {r : Registry} {ms : List Model}
    (hr : r.WellFormed home) (h : models r = .ok ms) {t : RegisteredType}
    (ht : t ∈ primary r .interface) :
    ∃ found, accessors r t.name (.of t.name) (Registry.fieldsOf t.definition.shape) = .ok found ∧
      Declares home ms t.name t.generatedPath (found.map (·.1)) := by
  obtain ⟨m, hm, hemit⟩ := exists_item h .interface ht
  obtain ⟨found, hfound, hname, hartifact⟩ := interface_accessors hemit
  obtain ⟨⟨dependencies, artifact, rfl⟩, _⟩ := interface_ok hemit
  refine ⟨found, hfound, ⟨_, hm, hname, ?_, hartifact⟩, ?_⟩
  · rw [itemPath_primaryModel, hr.path t (mem_primary.mp ht).1]
  · intro m' hm' hname' others hothers
    -- only the generator for interfaces gives accessors, and it gives one item for each name
    obtain ⟨part, hemits⟩ := (mem_models h).mp hm'
    have hpart := hemits.part_eq
    rw [hothers, partOf] at hpart
    subst hpart
    cases hemits with
    | interface ht' hemit' =>
        rename_i t'
        obtain ⟨found', hfound', hn, hartifact'⟩ := interface_accessors hemit'
        have htype : t' = t := List.inj_on_of_nodup_map hr.nodup (mem_primary.mp ht').1
          (mem_primary.mp ht).1 (hn.symm.trans hname')
        subst htype
        cases hfound.symm.trans hfound'
        exact (Artifact.interface.inj (hothers.symm.trans hartifact'))

theorem implements_of_ok {home : Namespace} {r : Registry} {ms : List Model}
    (hr : r.WellFormed home) (h : models r = .ok ms) {owner name : String}
    {fields : List Schema.Field} {members : List OutputMember}
    (hmembers : MembersOf r owner fields members) {c : Conformance}
    (hs : isSubstitutedInterface r name = false) (hc : conformance r owner fields name = .ok c) :
    Implements home ms (objectMethods owner members) name c := by
  obtain ⟨t, ht, rfl, hpath, hmethods⟩ := conformance_ok hc hs
  obtain ⟨found, hfound, hdeclares⟩ := declares_of_primary hr h ht
  exact ⟨_, hpath ▸ hdeclares, delegates_of_ok hmembers hfound hmethods⟩

/-- Every object of a client implements the interfaces that it lists, but for those which
hand-written items replace. -/
theorem models_implement {document : Schema.Document} {home : Namespace}
    {substitutions : Substitutions} {r : Registry} {warnings : List Warning} {ms : List Model}
    (hr : Registry.build document home substitutions = .ok (r, warnings)) (h : models r = .ok ms) :
    ∀ m ∈ ms, ∀ properties methods conformances,
      m.artifact = .outputObject properties methods conformances →
      ∃ t ∈ primary r .outputObject, m.typeName = t.name ∧
        List.Forall₂ (Implements home ms methods)
          ((interfacesOf t.definition.shape).filter (!isSubstitutedInterface r ·)) conformances := by
  have hw := Registry.wellFormed_of_build hr
  intro m hm properties methods conformances hartifact
  obtain ⟨part, hemits⟩ := (mem_models h).mp hm
  have hpart := hemits.part_eq
  rw [hartifact, partOf] at hpart
  subst hpart
  cases hemits with
  | outputObject ht hemit =>
      rename_i t
      obtain ⟨members, found, hmembers, hfound, rfl⟩ := outputObject_ok hemit
      cases hartifact
      refine ⟨t, ht, rfl, ?_⟩
      have hall := Outcome.mapM_ok.mp hfound
      refine (List.forall₂_and_left _ _ |>.mpr ⟨fun name hname => ?_, hall⟩).imp
        fun name c hc => implements_of_ok hw h hmembers hc.1 hc.2
      simpa using (List.mem_filter.mp hname).2

/-- A section satisfies its interface with a boxed field, a list and a text, each of which is never
null; a hand-written item replaces the other interface that it lists. -/
def sections : Schema.Document where
  definitions := [
    ⟨"Part", none, .interface [⟨"title", none, [], .named "String"⟩,
      ⟨"pages", none, [], .list (.nonNull (.named "Int"))⟩,
      ⟨"whole", none, [], .named "Section"⟩, ⟨"next", none, [], .named "Section"⟩]⟩,
    ⟨"Owned", none, .interface [⟨"owner", none, [], .named "Owned"⟩]⟩,
    ⟨"Section", none, .object ["Owned", "Part"] [
      ⟨"next", none, [], .named "Section"⟩, ⟨"whole", none, [], .nonNull (.named "Section")⟩,
      ⟨"pages", none, [], .nonNull (.list (.nonNull (.named "Int")))⟩,
      ⟨"title", none, [], .nonNull (.named "String")⟩]⟩]
  roots := {}

theorem models_implement_sections : ∃ r warnings ms,
    Registry.build sections .default [("Owned", "crate::owned::Owned")] = .ok (r, warnings) ∧
    models r = .ok ms ∧
    (∃ m ∈ ms, ∃ properties methods c, m.artifact = .outputObject properties methods [c] ∧
      c.methods.map (·.name) = ["title", "pages", "whole", "next"]) ∧
    ∀ m ∈ ms, ∀ properties methods conformances,
      m.artifact = .outputObject properties methods conformances →
      ∃ t ∈ primary r .outputObject, m.typeName = t.name ∧
        List.Forall₂ (Implements .default ms methods)
          ((interfacesOf t.definition.shape).filter (!isSubstitutedInterface r ·)) conformances := by
  have hrun : Outcome.any (Registry.build sections .default [("Owned", "crate::owned::Owned")])
      (fun out => Outcome.any (models out.1) fun ms => ms.any fun m =>
        m.artifact.conformances.map (·.methods.map (·.name)) =
          [["title", "pages", "whole", "next"]]) = true := by
    decide +kernel
  obtain ⟨⟨r, warnings⟩, hr, hrun⟩ := Outcome.any_eq_true.mp hrun
  obtain ⟨ms, h, hany⟩ := Outcome.any_eq_true.mp hrun
  refine ⟨r, warnings, ms, hr, h, ?_, models_implement hr h⟩
  obtain ⟨m, hm, htest⟩ := List.any_eq_true.mp hany
  obtain ⟨c, hc, hnames⟩ := List.map_eq_singleton_iff.mp (of_decide_eq_true htest)
  obtain ⟨properties, methods, hartifact⟩ := Artifact.eq_of_conformances hc
  exact ⟨m, hm, properties, methods, c, hartifact, hnames⟩

end Client

end Graphwright
