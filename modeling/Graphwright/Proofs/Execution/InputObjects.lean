import Graphwright.Proofs.Execution.Arguments

/-!
# What input objects carry

The constructor of an input object takes the required fields first and makes an object that carries
what has been passed, under the names of the schema. A setter leaves the object alone if it is given
nothing; else it changes the entry of its own field and no other.
-/
namespace Graphwright.Execution

open Client (InputMember InputMembers)

section Calls

variable {m : Type → Type} [Monad m] [LawfulMonad m] {H : Host m} {r : Registry}
  {fields : List Schema.Input} {ms : List InputMember}

theorem find?_setter (h : InputMembers r fields ms) {member : InputMember} (hm : member ∈ ms)
    (ho : member.isOptional = true) :
    (Client.inputClass fields ms).methods.find? (·.name = member.setterName)
      = some member.setter := by
  have hmem : member.setter ∈ (Client.inputClass fields ms).methods :=
    List.mem_cons_of_mem _ (List.mem_map_of_mem (List.mem_filter.mpr ⟨hm, ho⟩))
  have hnames : ((Client.inputClass fields ms).methods.map (·.name)).Nodup := by
    simpa [Client.inputClass, Client.inputConstructor, InputMember.setter, Function.comp_def]
      using h.setters
  exact Entries.find?_of_nodup hnames hmem rfl

theorem find?_constant (h : InputMembers r fields ms) {member : InputMember} (hm : member ∈ ms) :
    (Client.inputClass fields ms).constants.find? (·.name = member.constant)
      = some ⟨member.constant, member.field.name⟩ := by
  obtain ⟨f, hf, hfor⟩ := Outcome.mem_of_forall₂ h.for_fields member hm
  have hfield : f ∈ fields := Client.mem_constructorOrder.mp hf
  rw [hfor.constant, hfor.field]
  have hmem : (⟨Text.shoutyCase f.name, f.name⟩ : Code.Constant)
      ∈ (Client.inputClass fields ms).constants := List.mem_map.mpr ⟨f, hfield, rfl⟩
  have hnames : ((Client.inputClass fields ms).constants.map (·.name)).Nodup := by
    simpa [Client.inputClass, Function.comp_def] using h.constants
  exact Entries.find?_of_nodup hnames hmem rfl

/-- What a call of a setter makes of a payload. -/
def updated (H : Host m) (payload : Arguments) (name : String) : Option H.Value → Arguments
  | none => payload
  | some v => payload.insert name (H.toInput v)

theorem invoke_setter (h : InputMembers r fields ms) {member : InputMember} (hm : member ∈ ms)
    (ho : member.isOptional = true) (depth : Nat) (payload : Arguments) (v : Option H.Value) :
    invoke H (Client.inputClass fields ms) (depth + 1) member.setterName
        (some (.inputObject payload)) [.option v]
      = pure (.inputObject (updated H payload member.field.name v)) := by
  rw [invoke_succ (find?_setter h hm ho) rfl (by simp [InputMember.setter])]
  have hconstant := find?_constant h hm
  cases v with
  | none =>
      simp [InputMember.setter, Context.stmts, Context.stmt, Entries.get?, updated]
  | some v =>
      simp [InputMember.setter, Context.stmts, Context.stmt, Context.expr, Entries.get?, updated,
        hconstant, Frame.get?_bind, Frame.update?, Datum.inputObject, Datum.insert?]

/-- A local is the parameter for a field, with what is passed for it. -/
structure Takes (r : Registry) (ms : List InputMember) (frame : Frame H) (member : InputMember)
    (s : Supplied H.Value) : Prop where
  mem : member ∈ ms
  for_input : member.For r s.input
  datum : Entries.get? member.param frame.locals = some (s.datum H)

omit [Monad m] [LawfulMonad m] in
theorem Takes.isOptional {frame : Frame H} {member : InputMember} {s : Supplied H.Value}
    (h : Takes r ms frame member s) : member.isOptional = s.input.isOptional := by
  rw [InputMember.isOptional, h.for_input.field]

/-- The object starts with the required fields. -/
theorem expr_required (h : InputMembers r fields ms) {c : Context H} {frame : Frame H}
    (hc : c.constants = (Client.inputClass fields ms).constants) {args : List (Supplied H.Value)}
    (hargs : List.Forall₂ (Takes r ms frame) ms args)
    (hn : (Entries.names (given H (args.filter (!·.input.isOptional)))).Nodup) :
    c.expr frame (.construct [(Code.inputStore,
        .arguments ((ms.filter (!·.isOptional)).map (·.entry)))])
      = pure (.inputObject (given H (args.filter (!·.input.isOptional)))) := by
  have hentries : c.entries frame ((ms.filter (!·.isOptional)).map (·.entry))
      = pure (given H (args.filter (!·.input.isOptional))) :=
    entries_required <| hargs.imp fun member s hs =>
      ⟨by simp [Context.expr, hc, find?_constant h hs.mem, hs.for_input.field], hs.isOptional,
        hs.datum⟩
  simp [Context.expr, Context.fields, hentries, Arguments.ofList, Entries.collect_eq hn,
    Datum.inputObject]

/-- It is handed through the setters of the optional fields. -/
theorem expr_setters (h : InputMembers r fields ms) {c : Context H} {frame : Frame H} {depth : Nat}
    (hc : c.call = invoke H (Client.inputClass fields ms) (depth + 1)) {object : Code.Expr}
    {payload : Arguments} (hobject : c.expr frame object = pure (.inputObject payload))
    {members : List InputMember} {args : List (Supplied H.Value)}
    (hargs : List.Forall₂ (Takes r ms frame) members args)
    (hn : (Entries.names (payload ++ given H (args.filter (·.input.isOptional)))).Nodup) :
    c.expr frame ((members.filter (·.isOptional)).foldl (fun object member =>
        .methodCall object member.setterName [.var member.param]) object)
      = pure (.inputObject (payload ++ given H (args.filter (·.input.isOptional)))) := by
  induction hargs generalizing object payload with
  | nil => simpa [given] using hobject
  | @cons member s members args hs _ ih =>
      by_cases ho : s.input.isOptional = true
      · have ho' : member.isOptional = true := by rw [hs.isOptional, ho]
        have hdatum := hs.datum
        rw [Supplied.datum_of_isOptional H ho] at hdatum
        have hcall : c.expr frame (.methodCall object member.setterName [.var member.param])
            = pure (.inputObject (updated H payload member.field.name s.value)) := by
          simp [Context.expr, Context.exprs, hobject, hdatum, hc, invoke_setter h hs.mem ho']
        have hmembers : (member :: members).filter (·.isOptional)
            = member :: members.filter (·.isOptional) := List.filter_cons_of_pos ho'
        have hpassed : (s :: args).filter (·.input.isOptional)
            = s :: args.filter (·.input.isOptional) := List.filter_cons_of_pos ho
        rw [hpassed] at hn ⊢
        rw [hmembers, List.foldl_cons]
        cases hv : s.value with
        | none =>
            rw [given_cons_none hv] at hn ⊢
            exact ih (by rw [hcall, hv, updated]) hn
        | some v =>
            rw [given_cons_some hv] at hn ⊢
            have hnew := Entries.not_mem_of_nodup hn
            rw [List.append_cons] at hn ⊢
            refine ih ?_ hn
            rw [hcall, hv, updated, hs.for_input.field, Arguments.insert,
              Entries.put_of_not_mem hnew]
      · have ho' : ¬ member.isOptional = true := by rwa [hs.isOptional]
        have hmembers : (member :: members).filter (·.isOptional) = members.filter (·.isOptional) :=
          List.filter_cons_of_neg ho'
        have hpassed : (s :: args).filter (·.input.isOptional) = args.filter (·.input.isOptional) :=
          List.filter_cons_of_neg ho
        rw [hpassed] at hn ⊢
        rw [hmembers]
        exact ih hobject hn

omit [Monad m] [LawfulMonad m] in
/-- What is passed in the order of the parameters is sent in that order. -/
theorem sent_eq_given {args : List (Supplied H.Value)}
    (h : args.map (·.input) = Client.constructorOrder fields) : sent H args = given H args := by
  rw [Client.constructorOrder_eq] at h
  obtain ⟨required, optional, rfl, hrequired, hoptional⟩ := List.map_eq_append_iff.mp h
  have hr : ∀ s ∈ required, s.input.isOptional = false := fun s hs => by
    have hmem : s.input ∈ fields.filter (!·.isOptional) := hrequired ▸ List.mem_map_of_mem hs
    simpa using (List.mem_filter.mp hmem).2
  have ho : ∀ s ∈ optional, s.input.isOptional = true := fun s hs => by
    have hmem : s.input ∈ fields.filter (·.isOptional) := hoptional ▸ List.mem_map_of_mem hs
    exact (List.mem_filter.mp hmem).2
  have hfirst : (required ++ optional).filter (!·.input.isOptional) = required := by
    rw [List.filter_append, List.filter_eq_self.mpr (by simpa using hr),
      List.filter_eq_nil_iff.mpr (by simpa using ho), List.append_nil]
  have hsecond : (required ++ optional).filter (·.input.isOptional) = optional := by
    rw [List.filter_append, List.filter_eq_nil_iff.mpr (by simpa using hr),
      List.filter_eq_self.mpr ho, List.nil_append]
  rw [sent, hfirst, hsecond, given, given, given, List.filterMap_append]

/-- The constructor makes an object that carries what it is given. -/
theorem invoke_new (h : InputMembers r fields ms) (depth : Nat) {args : List (Supplied H.Value)}
    (hargs : args.map (·.input) = Client.constructorOrder fields) :
    invoke H (Client.inputClass fields ms) (depth + 2) "new" none (args.map (·.datum H))
      = pure (.inputObject (given H args)) := by
  have hfor : List.Forall₂ (fun member s => member.For r s.input) ms args := by
    rw [← List.forall₂_map_right_iff, hargs]
    exact h.for_fields
  have hlength := hfor.length_eq
  have hlocals := forall₂_get? (H := H) [] hlength
    (by simpa [Entries.names] using h.params)
  have htakes : List.Forall₂ (Takes r ms
      ⟨none, (ms.map (·.param)).zip (args.map (·.datum H))⟩) ms args :=
    ((List.forall₂_and_left _ _).mpr ⟨fun _ hm => hm,
      List.Forall₂.mp (fun _ _ hm hs => And.intro hm hs) hfor hlocals⟩).imp
      fun _ _ h => ⟨h.1, h.2.1, h.2.2⟩
  have hnames : ms.map (·.param) = (args.map (·.input.name)).map Client.memberName := by
    rw [List.map_map]
    exact Outcome.map_eq_of_forall₂ hfor fun _ _ _ hm => hm.param
  have hsent := nodup_names_sent ((hnames ▸ h.params).of_map _)
  rw [← sent_eq_given hargs]
  rw [sent, Entries.names_append] at hsent
  have hobject := expr_required (c := ⟨_, invoke H (Client.inputClass fields ms) (depth + 1)⟩) h rfl
    htakes hsent.of_append_left
  have hfind : (Client.inputClass fields ms).methods.find? (·.name = "new")
      = some (Client.inputConstructor ms) := rfl
  have hparams : (Client.inputConstructor ms).params.map (·.name) = ms.map (·.param) := by
    simp [Client.inputConstructor, InputMember.toParam, Function.comp_def]
  rw [← Entries.names_append] at hsent
  rw [invoke_succ hfind (by simp [Client.inputConstructor, hlength])
    (by simp [Client.inputConstructor]), hparams]
  have hexpr := expr_setters h rfl hobject htakes hsent
  change outcome (Context.stmts _ _ [.return (Client.constructed ms)]) = _
  rw [Context.stmts, Context.stmt, Client.constructed, hexpr]
  simp [sent]

end Calls

/-! ## Input objects -/

section Payloads

variable {m : Type → Type} {H : Host m}

/-- What a call of a setter does to a payload: nothing without a value, and else it changes one
entry in its place or adds one. -/
inductive Sets (H : Host m) (call : Supplied H.Value) : Arguments → Arguments → Prop
  | absent {payload} (h : call.value = none) : Sets H call payload payload
  | replaced {v before old after} (h : call.value = some v)
      (hb : call.input.name ∉ Entries.names before) :
      Sets H call (before ++ (call.input.name, old) :: after)
        (before ++ (call.input.name, H.toInput v) :: after)
  | appended {v payload} (h : call.value = some v) (hn : call.input.name ∉ Entries.names payload) :
      Sets H call payload (payload ++ [(call.input.name, H.toInput v)])

theorem sets_updated (call : Supplied H.Value) (payload : Arguments) :
    Sets H call payload (updated H payload call.input.name call.value) := by
  cases hv : call.value with
  | none => exact .absent hv
  | some v =>
      rw [updated, Arguments.insert]
      by_cases hmem : call.input.name ∈ Entries.names payload
      · obtain ⟨before, old, after, rfl, hb⟩ := Entries.exists_of_mem_names hmem
        rw [Entries.put_append hb]
        exact .replaced hv hb
      · rw [Entries.put_of_not_mem hmem]
        exact .appended hv hmem

inductive SetsAll (H : Host m) : List (Supplied H.Value) → Arguments → Arguments → Prop
  | nil {payload} : SetsAll H [] payload payload
  | cons {call calls payload payload' payload''} (h : Sets H call payload payload')
      (hs : SetsAll H calls payload' payload'') : SetsAll H (call :: calls) payload payload''

/-- Calls the setters of an input object, one after the other. -/
def callSetters [Monad m] (H : Host m) (cls : Code.Class) (depth : Nat) (object : Datum H)
    (calls : List (Supplied H.Value)) : OptionT m (Datum H) :=
  calls.foldlM (fun object call =>
    invoke H cls depth ("with_" ++ Client.memberName call.input.name) (some object)
      [call.datum H]) object

end Payloads

/-- An input object with these fields carries exactly what it is given. -/
structure Carries (r : Registry) (fields : List Schema.Input) (cls : Code.Class) : Prop where
  methods : cls.methods.map (·.name) =
    "new" :: (fields.filter (·.isOptional)).map fun f => "with_" ++ Client.memberName f.name
  params : ∃ new, cls.methods.find? (·.name = "new") = some new ∧
    List.Forall₂ (fun p f => p.name = Client.memberName f.name ∧ IsParam r p f) new.params
      (fields.filter (!·.isOptional) ++ fields.filter (·.isOptional))
  constructed : ∀ {m : Type → Type} [Monad m] [LawfulMonad m] (H : Host m) (depth : Nat)
    (args : List (Supplied H.Value)),
    args.map (·.input) = fields.filter (!·.isOptional) ++ fields.filter (·.isOptional) →
    invoke H cls (depth + 2) "new" none (args.map (·.datum H)) = pure (.inputObject (given H args))
  changed : ∀ {m : Type → Type} [Monad m] [LawfulMonad m] (H : Host m) (depth : Nat)
    (calls : List (Supplied H.Value)),
    (∀ call ∈ calls, call.input ∈ fields ∧ call.input.isOptional = true) →
    ∀ payload, ∃ payload', SetsAll H calls payload payload' ∧
      callSetters H cls (depth + 1) (.inputObject payload) calls = pure (.inputObject payload')

section

variable {r : Registry} {fields : List Schema.Input} {ms : List InputMember}

theorem callSetters_ok {m : Type → Type} [Monad m] [LawfulMonad m] {H : Host m}
    (h : InputMembers r fields ms) (depth : Nat) {calls : List (Supplied H.Value)}
    (hcalls : ∀ call ∈ calls, call.input ∈ fields ∧ call.input.isOptional = true)
    (payload : Arguments) :
    ∃ payload', SetsAll H calls payload payload' ∧
      callSetters H (Client.inputClass fields ms) (depth + 1) (.inputObject payload) calls
        = pure (.inputObject payload') := by
  induction calls generalizing payload with
  | nil => exact ⟨payload, .nil, rfl⟩
  | cons call calls ih =>
      obtain ⟨hfield, ho⟩ := hcalls call List.mem_cons_self
      have horder : call.input ∈ Client.constructorOrder fields :=
        Client.mem_constructorOrder.mpr hfield
      obtain ⟨member, hm, hfor⟩ := Outcome.mem_of_forall₂' h.for_fields call.input horder
      have hcall := invoke_setter (H := H) h hm (by rw [InputMember.isOptional, hfor.field, ho])
        depth payload call.value
      rw [hfor.field, InputMember.setterName, hfor.param] at hcall
      obtain ⟨payload', hsets, hrun⟩ :=
        ih (fun call hc => hcalls call (List.mem_cons_of_mem _ hc))
          (updated H payload call.input.name call.value)
      refine ⟨payload', .cons (sets_updated call payload) hsets, ?_⟩
      rw [callSetters, List.foldlM_cons, Supplied.datum_of_isOptional H ho, hcall, pure_bind]
      exact hrun

theorem setterNames_eq (h : InputMembers r fields ms) :
    (ms.filter (·.isOptional)).map (·.setterName)
      = (fields.filter (·.isOptional)).map fun f => "with_" ++ Client.memberName f.name := by
  have hfilter := List.rel_filter (p := (·.isOptional)) (q := (·.isOptional))
    (fun member f (hf : InputMember.For r member f) => by
      simp [InputMember.isOptional, hf.field]) h.for_fields
  have horder : (Client.constructorOrder fields).filter (·.isOptional)
      = fields.filter (·.isOptional) := by
    simp [Client.constructorOrder_eq, List.filter_filter]
  rw [horder] at hfilter
  exact Outcome.map_eq_of_forall₂ hfilter fun member _ f hf => by
    rw [InputMember.setterName, hf.param]

theorem carries_of_members (h : InputMembers r fields ms) :
    Carries r fields (Client.inputClass fields ms) where
  methods := by
    rw [← setterNames_eq h]
    simp [Client.inputClass, Client.inputConstructor, InputMember.setter, Function.comp_def]
  params := by
    refine ⟨Client.inputConstructor ms, rfl, ?_⟩
    rw [Client.inputConstructor, List.forall₂_map_left_iff, ← Client.constructorOrder_eq]
    refine h.for_fields.imp fun member f hf => ⟨hf.param, ?_⟩
    obtain ⟨context, resolved, hres, htype⟩ := hf.type
    exact ⟨context, resolved, hres, by
      rw [InputMember.toParam, InputMember.isOptional, hf.field, htype]⟩
  constructed H depth args hargs :=
    invoke_new h depth (hargs.trans (Client.constructorOrder_eq fields).symm)
  changed H depth calls hcalls payload := callSetters_ok h depth hcalls payload

end

/-- Whatever definition the generator accepts, its input object carries exactly what it is given. -/
theorem inputObject_carries {r : Registry} {t : RegisteredType} {fields : List Schema.Input}
    {model : Code.Model} (h : Client.inputObject r t fields = .ok model) :
    ∃ cls, model.artifact = .inputObject cls ∧ Carries r fields cls := by
  obtain ⟨ms, hms, hartifact⟩ := Client.inputObject_members h
  exact ⟨_, hartifact, carries_of_members hms⟩

/-- A search takes a text, and may be limited or narrowed down. -/
def searchFields : List Schema.Input := [
  ⟨"limit", none, .nonNull (.named "Int"), some "10"⟩,
  ⟨"text", none, .nonNull (.named "String"), none⟩,
  ⟨"tags", none, .list (.nonNull (.named "String")), none⟩]

def search : RegisteredType :=
  ⟨⟨"Search", none, .inputObject searchFields⟩, "crate::graphql::types::Search", none⟩

theorem inputObject_carries_search : ∃ model cls,
    Client.inputObject (.empty .default) search searchFields = .ok model ∧
    model.artifact = .inputObject cls ∧ Carries (.empty .default) searchFields cls ∧
    ∀ (H : Host Id) (text tags : H.Value),
      invoke H cls 2 "new" none [.value text, .option none, .option (some tags)]
        = pure (.inputObject [("text", H.toInput text), ("tags", H.toInput tags)]) := by
  obtain ⟨model, h⟩ := Outcome.exists_of_isOk (x := Client.inputObject (.empty .default) search
    searchFields) (by decide +kernel)
  obtain ⟨cls, hartifact, hcarries⟩ := inputObject_carries h
  refine ⟨model, cls, h, hartifact, hcarries, fun H text tags => ?_⟩
  let args : List (Supplied H.Value) := [⟨searchFields[1], some text, fun _ => rfl⟩,
    ⟨searchFields[0], none, fun ho => by cases ho⟩,
    ⟨searchFields[2], some tags, fun _ => rfl⟩]
  have hargs : args.map (·.input) =
      searchFields.filter (!·.isOptional) ++ searchFields.filter (·.isOptional) := rfl
  have hsent : given H args = [("text", H.toInput text), ("tags", H.toInput tags)] := rfl
  rw [← hsent, ← hcarries.constructed H 0 args hargs]
  rfl

end Graphwright.Execution
