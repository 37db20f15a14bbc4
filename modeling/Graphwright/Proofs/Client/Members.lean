import Graphwright.Client.Basic
import Graphwright.Proofs.Registry.Resolution
import Mathlib.Data.List.Nodup

/-!
# Members of generated items

Each generator goes through what the schema declares for a type, resolves the types that stand there,
claims names and puts one member together after the other. What the loops come to is said here, once
for each generator: there is one member for each declaration, in order, and the names that they were
given differ from each other and from those taken before.
-/
namespace Graphwright.Client

open Code (Constant Method)

/-! ## Names of one scope -/

/-- Names that are claimed in a scope, one after the other. -/
structure Members.Claims (scope : Members) (names : List String) : Prop where
  nodup : names.Nodup
  fresh : ∀ name ∈ names, name ∉ scope.names

namespace Members.Claims

variable {scope scope' : Members} {names : List String}

theorem nil : scope.Claims [] := ⟨.nil, List.forall_mem_nil _⟩

theorem cons {name claimant : String} (h : scope'.Claims names)
    (hclaim : scope.claim name claimant = .ok scope') : scope.Claims (name :: names) := by
  obtain ⟨hnames, hnew⟩ := Members.names_of_claim hclaim
  have hfresh : ∀ n ∈ names, n ∉ scope.names ∧ n ≠ name := by
    intro n hn
    have hmem := h.fresh n hn
    rwa [hnames, List.mem_append, List.mem_singleton, not_or] at hmem
  exact ⟨List.nodup_cons.mpr ⟨fun hn => (hfresh name hn).2 rfl, h.nodup⟩,
    List.forall_mem_cons.mpr ⟨hnew, fun n hn => (hfresh n hn).1⟩⟩

theorem nodup_append (h : scope.Claims names) (hscope : scope.names.Nodup) :
    (scope.names ++ names).Nodup :=
  hscope.append h.nodup fun n hn hmem => h.fresh n hmem hn

end Members.Claims

/-! ## Parameters for arguments -/

/-- The name of the parameter for an argument, apart from the reserved names. -/
def paramName (reserved : List String) (name : String) : String :=
  if memberName name ∈ reserved then memberName name ++ "_arg" else memberName name

theorem paramName_not_mem {reserved : List String} (h : ∀ w ∈ reserved, w ++ "_arg" ∉ reserved)
    (name : String) : paramName reserved name ∉ reserved := by
  unfold paramName
  split
  · rename_i hmem
    exact h _ hmem
  · assumption

/-- A parameter is put together from its argument. -/
def ArgumentParam.IsEmitted (r : Registry) (reserved : List String) (a : ArgumentParam)
    (i : Schema.Input) : Prop :=
  ∃ context resolved, resolveConcrete r i.type context = .ok resolved ∧
    a = ⟨i.name, paramName reserved i.name, i.isOptional,
      (Code.TypeExpr.ofResolved resolved).nonNull, basePath? resolved⟩

/-- A parameter stands for a declared argument, and may be left out if that may. -/
structure ArgumentParam.For (r : Registry) (a : ArgumentParam) (i : Schema.Input) : Prop where
  argument : a.argument = i.name
  isOptional : a.isOptional = i.isOptional
  type : ∃ context resolved, resolveConcrete r i.type context = .ok resolved ∧
    a.type = (Code.TypeExpr.ofResolved resolved).nonNull

theorem ArgumentParam.for_of_isEmitted {r : Registry} {reserved : List String} {a : ArgumentParam}
    {i : Schema.Input} (h : a.IsEmitted r reserved i) :
    a.For r i ∧ a.param = paramName reserved i.name := by
  obtain ⟨context, resolved, hres, rfl⟩ := h
  exact ⟨⟨rfl, rfl, context, resolved, hres, rfl⟩, rfl⟩

/-- The parameters for some arguments have names of their own, apart from the reserved ones. -/
structure Planned (r : Registry) (reserved : List String) (inputs : List Schema.Input)
    (as : List ArgumentParam) : Prop where
  for_inputs : List.Forall₂ (·.For r) as inputs
  names : as.map (·.param) = inputs.map (paramName reserved ·.name)
  nodup : (as.map (·.param)).Nodup
  fresh : ∀ w ∈ reserved, w ++ "_arg" ∉ reserved

section

variable {r : Registry} {owner : String} {reserved : List String} {scope : Members}
  {inputs : List Schema.Input} {as : List ArgumentParam}

theorem argumentParams_ok (h : argumentParams r owner reserved scope inputs = .ok as) :
    List.Forall₂ (·.IsEmitted r reserved) as inputs ∧ scope.Claims (as.map (·.param)) := by
  induction inputs generalizing scope as with
  | nil =>
      cases h
      exact ⟨.nil, .nil⟩
  | cons i rest ih =>
      obtain ⟨resolved, hres, h⟩ := Outcome.bind_ok.mp h
      obtain ⟨scope', hclaim, h⟩ := Outcome.bind_ok.mp h
      obtain ⟨as', has, h⟩ := Outcome.bind_ok.mp h
      cases h
      obtain ⟨hparams, hnames⟩ := ih has
      exact ⟨.cons ⟨_, resolved, hres, rfl⟩ hparams, hnames.cons hclaim⟩

theorem planned_of_ok (h : argumentParams r owner reserved scope inputs = .ok as)
    (hr : ∀ w ∈ reserved, w ++ "_arg" ∉ reserved) : Planned r reserved inputs as := by
  obtain ⟨hparams, hnames⟩ := argumentParams_ok h
  exact ⟨hparams.imp fun _ _ ha => (ArgumentParam.for_of_isEmitted ha).1,
    Outcome.map_eq_of_forall₂ hparams fun _ _ _ ha => (ArgumentParam.for_of_isEmitted ha).2,
    hnames.nodup, hr⟩

theorem planArguments_ok {plan : ArgumentPlan}
    (h : planArguments r owner inputs reserved scope = .ok plan) :
    ∃ as, argumentParams r owner reserved scope inputs = .ok as ∧ plan = .ofParams as := by
  obtain ⟨as, has, h⟩ := Outcome.bind_ok.mp h
  cases h
  exact ⟨as, has, rfl⟩

theorem Planned.not_mem (h : Planned r reserved inputs as) : ∀ a ∈ as, a.param ∉ reserved := by
  intro a ha
  have hmem : a.param ∈ inputs.map (paramName reserved ·.name) := h.names ▸ List.mem_map_of_mem ha
  obtain ⟨i, _, hi⟩ := List.mem_map.mp hmem
  rw [← hi]
  exact paramName_not_mem h.fresh i.name

theorem Planned.nodup_inputs (h : Planned r reserved inputs as) : (inputs.map (·.name)).Nodup := by
  have hnodup := h.nodup
  have hmap : as.map (·.param) = (inputs.map (·.name)).map (paramName reserved) := by
    rw [h.names, List.map_map]
    rfl
  rw [hmap] at hnodup
  exact hnodup.of_map _

end

/-! ## Enums -/

theorem EnumScopes.claim_ok {scopes scopes' : EnumScopes} {v : Code.EnumValue}
    (h : scopes.claim v = .ok scopes') :
    scopes.constants.claim v.constant ("value " ++ v.wireName) = .ok scopes'.constants ∧
      scopes.variants.claim v.variant ("value " ++ v.wireName) = .ok scopes'.variants ∧
      scopes.accessors.claim v.accessor ("value " ++ v.wireName) = .ok scopes'.accessors := by
  obtain ⟨constants, hconstants, h⟩ := Outcome.bind_ok.mp h
  obtain ⟨variants, hvariants, h⟩ := Outcome.bind_ok.mp h
  obtain ⟨accessors, haccessors, h⟩ := Outcome.bind_ok.mp h
  cases h
  exact ⟨hconstants, hvariants, haccessors⟩

/-- What the values of an enum claim. -/
structure EnumScopes.Claims (scopes : EnumScopes) (values : List Code.EnumValue) : Prop where
  constants : scopes.constants.Claims (values.map (·.constant))
  variants : scopes.variants.Claims (values.map (·.variant))
  accessors : scopes.accessors.Claims (values.map (·.accessor))

theorem enumValues_ok {scopes : EnumScopes} {values : List Schema.EnumValue}
    {found : List Code.EnumValue} (h : enumValues scopes values = .ok found) :
    found = values.map enumValue ∧ scopes.Claims found := by
  induction values generalizing scopes found with
  | nil =>
      cases h
      exact ⟨rfl, .nil, .nil, .nil⟩
  | cons v vs ih =>
      obtain ⟨scopes', hclaim, h⟩ := Outcome.bind_ok.mp h
      obtain ⟨rest, hrest, h⟩ := Outcome.bind_ok.mp h
      cases h
      obtain ⟨rfl, hnames⟩ := ih hrest
      obtain ⟨hconstant, hvariant, haccessor⟩ := EnumScopes.claim_ok hclaim
      exact ⟨rfl, hnames.constants.cons hconstant, hnames.variants.cons hvariant,
        hnames.accessors.cons haccessor⟩

/-! ## Input objects -/

theorem inputConstants_ok {scope : Members} {fields : List Schema.Input} {cs : List Constant}
    (h : inputConstants scope fields = .ok cs) :
    cs = fields.map (fun f => ⟨Text.shoutyCase f.name, f.name⟩) ∧
      scope.Claims (cs.map (·.name)) := by
  induction fields generalizing scope cs with
  | nil =>
      cases h
      exact ⟨rfl, .nil⟩
  | cons f fs ih =>
      obtain ⟨scope', hclaim, h⟩ := Outcome.bind_ok.mp h
      obtain ⟨cs', hcs, h⟩ := Outcome.bind_ok.mp h
      cases h
      obtain ⟨rfl, hnames⟩ := ih hcs
      exact ⟨rfl, hnames.cons hclaim⟩

/-- A member is put together from its field. -/
def InputMember.IsEmitted (r : Registry) (m : InputMember) (f : Schema.Input) : Prop :=
  ∃ context resolved, resolveConcrete r f.type context = .ok resolved ∧
    m = ⟨f, Text.shoutyCase f.name, memberName f.name,
      (Code.TypeExpr.ofResolved resolved).nonNull, basePath? resolved⟩

/-- A member stands for its field. -/
structure InputMember.For (r : Registry) (m : InputMember) (f : Schema.Input) : Prop where
  field : m.field = f
  constant : m.constant = Text.shoutyCase f.name
  param : m.param = memberName f.name
  type : ∃ context resolved, resolveConcrete r f.type context = .ok resolved ∧
    m.type = (Code.TypeExpr.ofResolved resolved).nonNull

theorem InputMember.for_of_isEmitted {r : Registry} {m : InputMember} {f : Schema.Input}
    (h : m.IsEmitted r f) : m.For r f := by
  obtain ⟨context, resolved, hres, rfl⟩ := h
  exact ⟨rfl, rfl, rfl, context, resolved, hres, rfl⟩

theorem inputMembers_ok {r : Registry} {owner : String} {params members : Members}
    {fields : List Schema.Input} {ms : List InputMember}
    (h : inputMembers r owner params members fields = .ok ms) :
    List.Forall₂ (·.IsEmitted r) ms fields ∧ params.Claims (ms.map (·.param)) ∧
      members.Claims ((ms.filter (·.isOptional)).map (·.setterName)) := by
  induction fields generalizing params members ms with
  | nil =>
      cases h
      exact ⟨.nil, .nil, .nil⟩
  | cons f fs ih =>
      obtain ⟨resolved, hres, h⟩ := Outcome.bind_ok.mp h
      obtain ⟨params', hparam, h⟩ := Outcome.bind_ok.mp h
      dsimp only at h
      -- an optional field claims the name of its setter too
      split at h <;> rename_i ho
      · obtain ⟨members', hsetter, h⟩ := Outcome.bind_ok.mp h
        obtain ⟨ms', hms, h⟩ := Outcome.bind_ok.mp h
        cases h
        obtain ⟨hmembers, hparams, hsetters⟩ := ih hms
        refine ⟨.cons ⟨_, resolved, hres, rfl⟩ hmembers, hparams.cons hparam, ?_⟩
        simpa [InputMember.isOptional, ho] using hsetters.cons hsetter
      · obtain ⟨members', e, h⟩ := Outcome.bind_ok.mp h
        cases e
        obtain ⟨ms', hms, h⟩ := Outcome.bind_ok.mp h
        cases h
        obtain ⟨hmembers, hparams, hsetters⟩ := ih hms
        refine ⟨.cons ⟨_, resolved, hres, rfl⟩ hmembers, hparams.cons hparam, ?_⟩
        simpa [InputMember.isOptional, ho] using hsetters

theorem placeField_append {f : Schema.Input} {before after : List Schema.Input}
    (hbefore : ∀ g ∈ before, ¬ f.isOptional ≤ g.isOptional)
    (hafter : ∀ g ∈ after, f.isOptional ≤ g.isOptional) :
    placeField f (before ++ after) = before ++ f :: after := by
  induction before with
  | nil =>
      cases after with
      | nil => rfl
      | cons g after => exact if_pos (hafter g List.mem_cons_self)
  | cons g before ih =>
      obtain ⟨hg, hbefore⟩ := List.forall_mem_cons.mp hbefore
      rw [List.cons_append, placeField, if_neg hg, ih hbefore, List.cons_append]

/-- The fields are in order, so a field goes where the merge sort of the library has it. -/
theorem constructorOrder_eq_mergeSort (fields : List Schema.Input) :
    constructorOrder fields =
      fields.mergeSort fun f g => decide (f.isOptional ≤ g.isOptional) := by
  have htrans : ∀ f g h : Schema.Input, decide (f.isOptional ≤ g.isOptional) = true →
      decide (g.isOptional ≤ h.isOptional) = true →
      decide (f.isOptional ≤ h.isOptional) = true := by
    simp only [decide_eq_true_eq]
    exact fun _ _ _ => Bool.le_trans
  have htotal : ∀ f g : Schema.Input, (decide (f.isOptional ≤ g.isOptional) ||
      decide (g.isOptional ≤ f.isOptional)) = true := by
    simp only [Bool.or_eq_true, decide_eq_true_eq]
    exact fun f g => Bool.le_total f.isOptional g.isOptional
  induction fields with
  | nil => rw [List.mergeSort_nil, constructorOrder, List.foldr_nil]
  | cons f fs ih =>
      obtain ⟨before, after, hsorted, hrest, hbefore⟩ := List.mergeSort_cons htrans htotal f fs
      have hordered := List.pairwise_mergeSort htrans htotal (f :: fs)
      rw [hsorted] at hordered ⊢
      have hafter := (List.pairwise_cons.mp (List.pairwise_append.mp hordered).2.1).1
      rw [constructorOrder, List.foldr_cons, ← constructorOrder, ih, hrest]
      exact placeField_append (by simpa using hbefore) (by simpa using hafter)

theorem mem_constructorOrder {fields : List Schema.Input} {f : Schema.Input} :
    f ∈ constructorOrder fields ↔ f ∈ fields := by
  rw [constructorOrder_eq_mergeSort, List.mem_mergeSort]

/-- Required fields come first, and each group stays in declaration order. -/
theorem constructorOrder_eq (fields : List Schema.Input) :
    constructorOrder fields = fields.filter (!·.isOptional) ++ fields.filter (·.isOptional) := by
  induction fields with
  | nil => rfl
  | cons f fs ih =>
      rw [constructorOrder, List.foldr_cons, ← constructorOrder, ih]
      cases hf : f.isOptional with
      | false =>
          rw [← List.nil_append (List.filter _ fs ++ _), placeField_append (List.forall_mem_nil _)]
          · simp [hf]
          · exact fun g _ => hf ▸ Bool.false_le g.isOptional
      | true =>
          rw [placeField_append]
          · simp [hf]
          · intro g hg
            simp only [List.mem_filter, Bool.not_eq_true'] at hg
            rw [hf, hg.2]
            decide
          · intro g hg
            rw [(List.mem_filter.mp hg).2]
            exact Bool.le_true f.isOptional

/-- What is claimed for an input object: constants, parameters and setters have names of their
own. -/
structure InputMembers (r : Registry) (fields : List Schema.Input) (ms : List InputMember) :
    Prop where
  for_fields : List.Forall₂ (·.For r) ms (constructorOrder fields)
  constants : (fields.map fun f => Text.shoutyCase f.name).Nodup
  params : (ms.map (·.param)).Nodup
  setters : ("new" :: (ms.filter (·.isOptional)).map (·.setterName)).Nodup

/-- The class of an input object with these members. -/
def inputClass (fields : List Schema.Input) (ms : List InputMember) : Code.Class where
  constants := fields.map fun f => ⟨Text.shoutyCase f.name, f.name⟩
  methods := inputConstructor ms :: (ms.filter (·.isOptional)).map (·.setter)

theorem inputObject_members {r : Registry} {t : RegisteredType} {fields : List Schema.Input}
    {model : Code.Model} (h : inputObject r t fields = .ok model) :
    ∃ ms, InputMembers r fields ms ∧ model.artifact = .inputObject (inputClass fields ms) := by
  obtain ⟨cs, hcs, h⟩ := Outcome.bind_ok.mp h
  obtain ⟨ms, hms, h⟩ := Outcome.bind_ok.mp h
  cases h
  obtain ⟨rfl, hconstants⟩ := inputConstants_ok hcs
  obtain ⟨hmembers, hparams, hsetters⟩ := inputMembers_ok hms
  refine ⟨ms, ⟨hmembers.imp fun _ _ => InputMember.for_of_isEmitted, ?_, hparams.nodup, ?_⟩, rfl⟩
  · simpa [Function.comp_def] using hconstants.nodup
  · exact hsetters.nodup_append (List.nodup_singleton "new")

/-! ## Interfaces -/

/-- A method reads a field of an interface. -/
def IsAccessor (r : Registry) (found : Method × Option String) (f : Schema.Field) : Prop :=
  ∃ context resolved, resolveConcrete r f.type context = .ok resolved ∧
    found = (borrowing (memberName f.name) f.description (.ofResolved resolved) [],
      basePath? resolved)

theorem accessors_ok {r : Registry} {owner : String} {scope : Members}
    {fields : List Schema.Field} {found : List (Method × Option String)}
    (h : accessors r owner scope fields = .ok found) :
    List.Forall₂ (IsAccessor r) found fields ∧ scope.Claims (fields.map (memberName ·.name)) := by
  induction fields generalizing scope found with
  | nil =>
      cases h
      exact ⟨.nil, .nil⟩
  | cons f fs ih =>
      obtain ⟨resolved, hres, h⟩ := Outcome.bind_ok.mp h
      obtain ⟨scope', hclaim, h⟩ := Outcome.bind_ok.mp h
      obtain ⟨rest, hrest, h⟩ := Outcome.bind_ok.mp h
      cases h
      obtain ⟨haccessors, hnames⟩ := ih hrest
      exact ⟨.cons ⟨_, resolved, hres, rfl⟩ haccessors, hnames.cons hclaim⟩

theorem interface_accessors {r : Registry} {t : RegisteredType} {fields : List Schema.Field}
    {m : Code.Model} (h : interface r t fields = .ok m) :
    ∃ found, accessors r t.name (.of t.name) fields = .ok found ∧
      m.typeName = t.name ∧ m.artifact = .interface (found.map (·.1)) := by
  obtain ⟨found, hfound, h⟩ := Outcome.bind_ok.mp h
  cases h
  exact ⟨found, hfound, rfl, rfl⟩

/-! ## Output objects -/

/-- A member whose field has a concrete type that a response can hold. -/
def OutputMember.IsEmitted (r : Registry) (owner : String) (m : OutputMember) : Prop :=
  ∃ context resolved decoder, resolveConcrete r m.field.type context = .ok resolved ∧
    Code.Decoder.ofResolved context resolved = .ok decoder ∧
    m = outputMember r owner m.field resolved decoder

theorem OutputMember.IsEmitted.name_eq {r : Registry} {owner : String} {m : OutputMember}
    (h : m.IsEmitted r owner) : m.name = memberName m.field.name := by
  obtain ⟨_, _, _, _, _, e⟩ := h
  rw [e]
  rfl

theorem outputMembers_ok {r : Registry} {owner : String} {scope : Members}
    {fields : List Schema.Field} {members : List OutputMember}
    (h : outputMembers r owner scope fields = .ok members) :
    members.map (·.field) = fields ∧ (∀ m ∈ members, m.IsEmitted r owner) ∧
      scope.Claims (members.map (·.name)) := by
  induction fields generalizing scope members with
  | nil =>
      cases h
      exact ⟨rfl, List.forall_mem_nil _, .nil⟩
  | cons f fs ih =>
      obtain ⟨resolved, hres, h⟩ := Outcome.bind_ok.mp h
      obtain ⟨scope', hclaim, h⟩ := Outcome.bind_ok.mp h
      obtain ⟨decoder, hdec, h⟩ := Outcome.bind_ok.mp h
      obtain ⟨rest, hrest, h⟩ := Outcome.bind_ok.mp h
      cases h
      obtain ⟨rfl, hmembers, hnames⟩ := ih hrest
      exact ⟨rfl, List.forall_mem_cons.mpr ⟨⟨_, resolved, decoder, hres, hdec, rfl⟩, hmembers⟩,
        hnames.cons hclaim⟩

/-- A method reads the field of an object with which the object has the one that an interface
requires. -/
def IsConforming (r : Registry) (own : List Schema.Field) (method : Method)
    (required : Schema.Field) : Prop :=
  ∃ field requiredType ownType widened, own.find? (·.name = required.name) = some field ∧
    (∃ context, resolveConcrete r required.type context = .ok requiredType) ∧
    (∃ context, resolveConcrete r field.type context = .ok ownType) ∧
    widening? ownType requiredType = some widened ∧
    method = borrowing (memberName required.name) none (.ofResolved requiredType)
      [.return (.delegate (memberName required.name) widened)]

theorem conformingMethods_ok {r : Registry} {object interface : String}
    {own required : List Schema.Field} {methods : List Method}
    (h : conformingMethods r object interface own required = .ok methods) :
    List.Forall₂ (IsConforming r own) methods required := by
  induction required generalizing methods with
  | nil =>
      cases h
      exact .nil
  | cons f fs ih =>
      unfold conformingMethods at h
      dsimp only at h
      split at h
      · rename_i field hfield
        obtain ⟨_, e, h⟩ := Outcome.bind_ok.mp h
        cases e
        obtain ⟨requiredType, hrequired, h⟩ := Outcome.bind_ok.mp h
        obtain ⟨ownType, hown, h⟩ := Outcome.bind_ok.mp h
        split at h
        · rename_i widened hw
          obtain ⟨_, e, h⟩ := Outcome.bind_ok.mp h
          cases e
          obtain ⟨rest, hrest, h⟩ := Outcome.bind_ok.mp h
          cases h
          exact .cons ⟨field, requiredType, ownType, widened, hfield, ⟨_, hrequired⟩, ⟨_, hown⟩,
            hw, rfl⟩ (ih hrest)
        · cases h
      · cases h

/-! ## Selection builders -/

/-- The names that the locals of a builder's method take. -/
def builderLocals : List String := [selectionParam, argumentsLocal]

/-- A member is put together from its field and from the plan for the field's arguments. -/
def SelectionMember.IsEmitted (r : Registry) (own : String) (member : SelectionMember)
    (f : Schema.Field) : Prop :=
  ∃ context resolved owner scope plan, resolveConcrete r f.type context = .ok resolved ∧
    planArguments r owner f.arguments builderLocals scope = .ok plan ∧
    member = selectionMember f own ((selectedObject? resolved).map r.home.selectionPath) plan

/-- A member is put together from its field. -/
def SelectionMember.For (r : Registry) (own : String) (member : SelectionMember)
    (f : Schema.Field) : Prop :=
  ∃ context resolved as, resolveConcrete r f.type context = .ok resolved ∧
    Planned r builderLocals f.arguments as ∧
    member = selectionMember f own ((selectedObject? resolved).map r.home.selectionPath)
      (.ofParams as)

theorem SelectionMember.for_of_isEmitted {r : Registry} {own : String} {member : SelectionMember}
    {f : Schema.Field} (h : member.IsEmitted r own f) : member.For r own f := by
  obtain ⟨context, resolved, _, _, _, hres, hplan, rfl⟩ := h
  obtain ⟨as, has, rfl⟩ := planArguments_ok hplan
  exact ⟨context, resolved, as, hres, planned_of_ok has (by decide), rfl⟩

theorem selectionMembers_ok {r : Registry} {owner : String} {constants members : Members}
    {fields : List Schema.Field} {ms : List SelectionMember}
    (h : selectionMembers r owner constants members fields = .ok ms) :
    List.Forall₂ (·.IsEmitted r (r.home.selectionPath owner)) ms fields ∧
      constants.Claims (ms.map (·.constant.name)) ∧ members.Claims (ms.map (·.method.name)) := by
  induction fields generalizing constants members ms with
  | nil =>
      cases h
      exact ⟨.nil, .nil, .nil⟩
  | cons f fs ih =>
      obtain ⟨resolved, hres, h⟩ := Outcome.bind_ok.mp h
      obtain ⟨constants', hconstant, h⟩ := Outcome.bind_ok.mp h
      obtain ⟨members', hmethod, h⟩ := Outcome.bind_ok.mp h
      obtain ⟨plan, hplan, h⟩ := Outcome.bind_ok.mp h
      obtain ⟨ms', hms, h⟩ := Outcome.bind_ok.mp h
      cases h
      obtain ⟨hmembers, hconstants, hmethods⟩ := ih hms
      exact ⟨.cons ⟨_, resolved, _, _, plan, hres, hplan, rfl⟩ hmembers,
        hconstants.cons hconstant, hmethods.cons hmethod⟩

/-- What is claimed for a builder: one member for each field, whose constants and methods have names
of their own. -/
structure SelectionMembers (r : Registry) (t : RegisteredType) (ms : List SelectionMember) :
    Prop where
  for_fields : List.Forall₂ (·.For r (r.home.selectionPath t.name)) ms
    (Registry.fieldsOf t.definition.shape)
  constants : (ms.map (·.constant.name)).Nodup
  methods : (ms.map (·.method.name)).Nodup

/-- The class of a builder with these members. -/
def builderClass (ms : List SelectionMember) : Code.Class :=
  ⟨ms.map (·.constant), ms.map (·.method)⟩

theorem selectionBuilder_members {r : Registry} {t : RegisteredType} {model : Code.Model}
    (h : selectionBuilder r t = .ok model) :
    ∃ ms, SelectionMembers r t ms ∧ model.artifact = .fieldSelection (builderClass ms) ∧
      model.folder = [] := by
  obtain ⟨ms, hms, h⟩ := Outcome.bind_ok.mp h
  cases h
  obtain ⟨hmembers, hconstants, hmethods⟩ := selectionMembers_ok hms
  exact ⟨ms, ⟨hmembers.imp fun _ _ => SelectionMember.for_of_isEmitted, hconstants.nodup,
    hmethods.nodup⟩, rfl, rfl⟩

/-! ## The service -/

/-- The names that the locals of a service method take. -/
def serviceLocals : List String := [selectionParam, argumentsLocal, requestLocal, responseLocal]

theorem operationMember_ok {r : Registry} {service : String} {kind : OperationKind}
    {f : Schema.Field} {member : ServiceMember}
    (h : operationMember r service kind f = .ok member) :
    ∃ context resolved d as, resolveConcrete r f.type context = .ok resolved ∧
      Code.Decoder.ofResolved context resolved = .ok d ∧
      Planned r serviceLocals f.arguments as ∧
      member = serviceMember kind f resolved ((selectedObject? resolved).map r.home.selectionPath)
        (.ofParams as) d := by
  obtain ⟨resolved, hres, h⟩ := Outcome.bind_ok.mp h
  obtain ⟨plan, hplan, h⟩ := Outcome.bind_ok.mp h
  obtain ⟨d, hd, h⟩ := Outcome.bind_ok.mp h
  cases h
  obtain ⟨as, has, rfl⟩ := planArguments_ok hplan
  exact ⟨_, resolved, d, as, hres, hd, planned_of_ok has (by decide), rfl⟩

theorem serviceMembers_ok {r : Registry} {service : String} {scope : Members}
    {operations : List (OperationKind × Schema.Field)} {members : List ServiceMember}
    (h : serviceMembers r service scope operations = .ok members) :
    List.Forall₂ (fun o member => operationMember r service o.1 o.2 = .ok member) operations
      members ∧ scope.Claims (members.map (·.method.name)) := by
  induction operations generalizing scope members with
  | nil =>
      cases h
      exact ⟨.nil, .nil⟩
  | cons o rest ih =>
      obtain ⟨member, hmember, h⟩ := Outcome.bind_ok.mp h
      obtain ⟨scope', hclaim, h⟩ := Outcome.bind_ok.mp h
      obtain ⟨members', hmembers, h⟩ := Outcome.bind_ok.mp h
      cases h
      obtain ⟨hall, hnames⟩ := ih hmembers
      exact ⟨.cons hmember hall, hnames.cons hclaim⟩

/-- What is claimed for the service: one member for each operation, whose methods have names of their
own. -/
structure ServiceMembers (r : Registry) (members : List ServiceMember) : Prop where
  for_operations : List.Forall₂
    (fun o member => operationMember r r.home.serviceName o.1 o.2 = .ok member) (operations r) members
  methods : ("new" :: members.map (·.method.name)).Nodup

theorem service_members {r : Registry} {model : Code.Model} (h : service r = .ok model) :
    ∃ members, ServiceMembers r members ∧
      model.artifact = .service ⟨[], members.map (·.method)⟩ := by
  obtain ⟨members, hmembers, h⟩ := Outcome.bind_ok.mp h
  cases h
  obtain ⟨hall, hnames⟩ := serviceMembers_ok hmembers
  exact ⟨members, ⟨hall, hnames.nodup_append (List.nodup_singleton "new")⟩, rfl⟩

theorem mem_operations {r : Registry} {kind : OperationKind} {f : Schema.Field} :
    (kind, f) ∈ operations r ↔ f ∈ r.operations kind := by
  cases kind <;> simp [operations, Registry.operations]

end Graphwright.Client
