import Graphwright.Generation
import Graphwright.Proofs.Needs

/-!
# Generators are not broken off

Nothing that happens before items are written out ends in a failure that breaks off the run: neither
reading the schema and building its registry nor putting the items together. So whatever breaks it
off has to do with the files.
-/
namespace Graphwright

/-! ## Registries -/

theorem Registry.calm_resolveLayer (r : Registry) (context : String) (nullable : Bool)
    (type : Schema.TypeRef) : Calm (r.resolveLayer context nullable type) := by
  induction type generalizing nullable with
  | named name =>
      rw [resolveLayer]
      split
      · exact .ok _
      · exact .error rfl
  | list element ih => exact (ih true).map _
  | nonNull inner ih => exact ih false

theorem Registry.calm_addOperations (kind : OperationKind) (r : Registry)
    (fs : List Schema.Field) : Calm (addOperations kind r fs) := by
  induction fs generalizing r with
  | nil => exact .ok r
  | cons f fs ih =>
      unfold addOperations
      split
      · exact .error rfl
      · cases kind <;> exact ih _

theorem Registry.calm_register {r : Registry} {d : Schema.Definition} {f : Failure}
    (h : r.register d = .refused f) : f.isAbort = false := by
  unfold register at h
  split at h
  · split at h <;> cases h
    rfl
  · split at h <;> cases h
    rfl

theorem Registry.calm_add (roots : Schema.Roots) (draft : Draft) (d : Schema.Definition) :
    Calm (draft.add roots d) := by
  unfold Draft.add
  dsimp only
  split
  · exact .error rfl
  · split
    · exact (calm_addOperations _ _ _).bind fun _ _ => .pure _
    · split
      · exact .pure _
      · exact .pure _
      · rename_i h
        exact .error (calm_register h)

theorem Registry.calm_substitute (draft : Draft) (entry : String × String) :
    Calm (draft.substitute entry) := by
  unfold Draft.substitute
  dsimp only
  split
  · exact .error rfl
  · split <;> exact .ok _

theorem calm_registryOfText (home : Namespace) (substitutions : Substitutions) (text : String) :
    Calm (registryOfText home substitutions text) := by
  refine Calm.bind ?_ fun _ _ => Calm.bind ?_ fun _ _ => .pure _
  · cases Schema.Document.parse text with
    | error place => exact .error rfl
    | ok out => exact .ok out
  · exact (Calm.foldlM (Registry.calm_add _) _).bind fun _ _ =>
      (Calm.foldlM Registry.calm_substitute _).bind fun _ _ => .pure _

/-! ## Members -/

namespace Client

theorem calm_resolveConcrete (r : Registry) (type : Schema.TypeRef) (context : String) :
    Calm (resolveConcrete r type context) := by
  refine (r.calm_resolveLayer context true type).bind fun resolved _ => ?_
  split
  · split
    · exact .error rfl
    · exact .pure _
  · exact .pure _

theorem calm_ofResolved (context : String) (t : ResolvedType) :
    Calm (Code.Decoder.ofResolved context t) := by
  induction t with
  | named isNullable target =>
      refine Calm.bind ?_ fun _ _ => .pure _
      cases target with
      | builtin p => exact .ok _
      | registered name category path => cases category <;> first | exact .ok _ | exact .error rfl
  | list isNullable element ih => exact ih.bind fun _ _ => .pure _

theorem Members.calm_claim (m : Members) (name claimant : String) :
    Calm (m.claim name claimant) := by
  unfold claim
  split
  · exact .error rfl
  · exact .ok _

theorem calm_argumentParams (r : Registry) (owner : String) (reserved : List String)
    (scope : Members) (inputs : List Schema.Input) :
    Calm (argumentParams r owner reserved scope inputs) := by
  induction inputs generalizing scope with
  | nil => exact .ok _
  | cons i inputs ih =>
      exact (calm_resolveConcrete r i.type _).bind fun _ _ =>
        (scope.calm_claim _ _).bind fun scope _ => (ih scope).bind fun _ _ => .pure _

theorem calm_planArguments (r : Registry) (owner : String) (inputs : List Schema.Input)
    (reserved : List String) (scope : Members) :
    Calm (planArguments r owner inputs reserved scope) :=
  (calm_argumentParams r owner reserved scope inputs).bind fun _ _ => .pure _

/-! ## Items -/

theorem calm_enumValues (scopes : EnumScopes) (values : List Schema.EnumValue) :
    Calm (enumValues scopes values) := by
  induction values generalizing scopes with
  | nil => exact .ok _
  | cons v vs ih =>
      refine Calm.bind ?_ fun scopes _ => (ih scopes).bind fun _ _ => .pure _
      exact (Members.calm_claim _ _ _).bind fun _ _ => (Members.calm_claim _ _ _).bind fun _ _ =>
        (Members.calm_claim _ _ _).bind fun _ _ => .pure _

theorem calm_inputConstants (scope : Members) (fields : List Schema.Input) :
    Calm (inputConstants scope fields) := by
  induction fields generalizing scope with
  | nil => exact .ok _
  | cons f fs ih =>
      exact (scope.calm_claim _ _).bind fun scope _ => (ih scope).bind fun _ _ => .pure _

theorem calm_inputMembers (r : Registry) (owner : String) (params members : Members)
    (fields : List Schema.Input) : Calm (inputMembers r owner params members fields) := by
  induction fields generalizing params members with
  | nil => exact .ok _
  | cons f fs ih =>
      refine (calm_resolveConcrete r f.type _).bind fun _ _ =>
        (params.calm_claim _ _).bind fun params _ => ?_
      dsimp only
      split
      · exact (members.calm_claim _ _).bind fun members _ =>
          (ih params members).bind fun _ _ => .pure _
      · exact (Calm.ok members).bind fun members _ => (ih params members).bind fun _ _ => .pure _

theorem calm_accessors (r : Registry) (owner : String) (scope : Members)
    (fields : List Schema.Field) : Calm (accessors r owner scope fields) := by
  induction fields generalizing scope with
  | nil => exact .ok _
  | cons f fs ih =>
      exact (calm_resolveConcrete r f.type _).bind fun _ _ =>
        (scope.calm_claim _ _).bind fun scope _ => (ih scope).bind fun _ _ => .pure _

theorem calm_outputMembers (r : Registry) (owner : String) (scope : Members)
    (fields : List Schema.Field) : Calm (outputMembers r owner scope fields) := by
  induction fields generalizing scope with
  | nil => exact .ok _
  | cons f fs ih =>
      exact (calm_resolveConcrete r f.type _).bind fun resolved _ =>
        (scope.calm_claim _ _).bind fun scope _ => (calm_ofResolved _ resolved).bind fun _ _ =>
          (ih scope).bind fun _ _ => .pure _

theorem calm_conformingMethods (r : Registry) (object interface : String)
    (own required : List Schema.Field) :
    Calm (conformingMethods r object interface own required) := by
  induction required with
  | nil => exact .ok _
  | cons f fs ih =>
      unfold conformingMethods
      dsimp only
      split
      · refine (Calm.ok _).bind fun _ _ => (calm_resolveConcrete r f.type _).bind fun _ _ =>
          (calm_resolveConcrete r _ _).bind fun _ _ => ?_
        split
        · exact (Calm.ok _).bind fun _ _ => ih.bind fun _ _ => .pure _
        · exact (Calm.error rfl).bind fun _ h => nomatch h
      · exact (Calm.error rfl).bind fun _ h => nomatch h

theorem calm_conformance (r : Registry) (object : String) (own : List Schema.Field)
    (interface : String) : Calm (conformance r object own interface) := by
  unfold conformance
  dsimp only
  split
  · exact .error rfl
  · split
    · exact (calm_conformingMethods r object interface own _).bind fun _ _ => .pure _
    · exact .error rfl

theorem calm_selectionMembers (r : Registry) (owner : String) (constants members : Members)
    (fields : List Schema.Field) : Calm (selectionMembers r owner constants members fields) := by
  induction fields generalizing constants members with
  | nil => exact .ok _
  | cons f fs ih =>
      exact (calm_resolveConcrete r f.type _).bind fun _ _ =>
        (constants.calm_claim _ _).bind fun constants _ =>
          (members.calm_claim _ _).bind fun members _ =>
            (calm_planArguments r _ _ _ _).bind fun _ _ =>
              (ih constants members).bind fun _ _ => .pure _

theorem calm_operationMember (r : Registry) (service : String) (kind : OperationKind)
    (f : Schema.Field) : Calm (operationMember r service kind f) :=
  (calm_resolveConcrete r f.type _).bind fun resolved _ =>
    (calm_planArguments r _ _ _ _).bind fun _ _ =>
      (calm_ofResolved _ resolved).bind fun _ _ => .pure _

theorem calm_serviceMembers (r : Registry) (service : String) (scope : Members)
    (operations : List (OperationKind × Schema.Field)) :
    Calm (serviceMembers r service scope operations) := by
  induction operations generalizing scope with
  | nil => exact .ok _
  | cons o rest ih =>
      exact (calm_operationMember r service o.1 o.2).bind fun _ _ =>
        (scope.calm_claim _ _).bind fun scope _ => (ih scope).bind fun _ _ => .pure _

theorem Part.calm_models (r : Registry) (part : Part) : Calm (part.models r) := by
  cases part with
  | customScalar => exact .ok _
  | enumeration =>
      exact Calm.mapM fun t _ => (calm_enumValues _ _).bind fun _ _ => .pure _
  | inputObject =>
      exact Calm.mapM fun t _ => (calm_inputConstants _ _).bind fun _ _ =>
        (calm_inputMembers r _ _ _ _).bind fun _ _ => .pure _
  | interface =>
      exact Calm.mapM fun t _ => (calm_accessors r _ _ _).bind fun _ _ => .pure _
  | outputObject =>
      exact Calm.mapM fun t _ => (calm_outputMembers r _ _ _).bind fun _ _ =>
        (Calm.mapM fun interface _ => calm_conformance r _ _ interface).bind fun _ _ => .pure _
  | selectionBuilder =>
      exact Calm.mapM fun t _ => (calm_selectionMembers r _ _ _ _).bind fun _ _ => .pure _
  | service =>
      refine Calm.bind ?_ fun _ _ => .pure _
      exact (calm_serviceMembers r _ _ _).bind fun _ _ => .pure _

theorem calm_models (r : Registry) : Calm (models r) :=
  (Calm.mapM fun part _ => part.calm_models r).bind fun _ _ => .pure _

end Client

/-! ## Files -/

theorem Backend.calm_ofName (name : String) : Calm (Backend.ofName name) := by
  unfold Backend.ofName
  dsimp only
  split
  · exact .ok _
  · exact .error rfl

theorem GeneratedFile.calm_checkCollisions (files : List GeneratedFile) :
    Calm (checkCollisions files) := by
  suffices h : ∀ seen, Calm (checkAgainst seen files) from h []
  induction files with
  | nil => exact fun _ => .ok ()
  | cons file files ih =>
      intro seen
      rw [checkAgainst]
      split
      · exact .error rfl
      · exact ih _

/-- If nothing breaks off the writing of the items, then nothing breaks off the run. -/
theorem calm_generate {options : Options} {text : String}
    (h : ∀ r warnings ms, registryOfText options.home options.substitutions text = .ok (r, warnings) →
      Client.models r = .ok ms → ∀ backend : Backend, Calm (backend.render r.home ms)) :
    Calm (generate options text) := by
  refine (Backend.calm_ofName _).bind fun backend _ => (calm_registryOfText _ _ _).bind
    fun (r, warnings) hr => (Client.calm_models r).bind fun ms hms =>
      (h r warnings ms hr hms backend).bind fun files _ =>
        (GeneratedFile.calm_checkCollisions files).bind fun _ _ => .pure _

end Graphwright
