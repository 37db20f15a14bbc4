import Graphwright.Proofs.Execution.Arguments
import Graphwright.Proofs.Execution.Correctness
import Graphwright.Proofs.Execution.Typing

/-!
# What a service does

A method of the service asks for the root field that it is generated for. A selection without fields
is refused before anything is sent; else one request goes to the transport, and what comes back under
the name of the field is decoded as the type of the field says. Whatever goes wrong on the way ends
the method with that very error.
-/
namespace Graphwright.Execution

open Client (ArgumentParam ArgumentPlan)

/-! ## Answers -/

section

variable {m : Type → Type} [Monad m]

/-- Sends a request and reads the entry that answers it. -/
def answer (H : Host m) (q : Request) (d : Code.Decoder) : m (Except ClientError H.Decoded) := do
  match ← (H.send q).run with
  | .error e => return .error e
  | .ok members =>
    match Entries.get? q.action members with
    | some value => return H.decode d value
    | none => return .error (.missingField q.action)

/-- What the method for an operation has to do. -/
def respond (H : Host m) (kind : OperationKind) (f : Schema.Field)
    (args : List (Supplied H.Value)) (selection : Option Selection) (d : Code.Decoder) :
    m (Except ClientError H.Decoded) :=
  match selection with
  | some [] => return .error (.emptySelection f.name)
  | selection => answer H ⟨kind, f.name, sent H args, selection⟩ d

/-- The result that a method of a service hands out. -/
def Datum.ofAnswer {H : Host m} (x : Except ClientError H.Decoded) : Datum H :=
  .ofExcept (.decoded <$> x)

variable [LawfulMonad m] {H : Host m}

/-- A request that is refused ends the method, and any other is kept. -/
theorem stmt_request {c : Context H} {frame : Frame H} {kind : OperationKind} {action : String}
    {map : Code.Expr} {builder : Option String} {a : Arguments} {selection : Option Selection}
    (hmap : c.expr frame map = pure (.arguments a))
    (hnested : frame.nested builder = (pure selection : Eval H _)) :
    c.stmt frame (.bind Client.requestLocal false (.attempt (.request kind action map builder)))
      = match Request.of kind action a selection with
        | .ok q => pure (frame.bind Client.requestLocal (.request q))
        | .error e => throw (.returned (.failure e)) := by
  simp only [Context.stmt, Context.expr, hmap, hnested, pure_bind]
  cases Request.of kind action a selection with
  | ok q => simp
  | error e => simp

/-- So does a transport that fails, and its response is kept. -/
theorem stmt_send {c : Context H} {frame : Frame H} {q : Request}
    (hself : frame.self? = some .service)
    (hq : Entries.get? Client.requestLocal frame.locals = some (.request q)) :
    c.stmt frame (.bind Client.responseLocal false (.attempt (.send (.var Client.requestLocal))))
      = ExceptT.mk (do
        match ← (H.send q).run with
        | .ok members => return .ok (frame.bind Client.responseLocal (.response members))
        | .error e => return .error (.returned (.failure e))) := by
  have hsend : c.expr frame (.send (.var Client.requestLocal)) = transmit H q := by
    simp [Context.expr, hq, hself, Datum.service]
  rw [Context.stmt, Context.expr, hsend]
  apply ExceptT.ext
  simp only [transmit, ExceptT.run_bind, ExceptT.run_mk, bind_assoc]
  congr 1
  funext x
  cases x <;> simp

/-- The statements that send a request and decode the response, run as they should be. -/
theorem outcome_request {c : Context H} {frame : Frame H} {kind : OperationKind}
    {f : Schema.Field} {map : Code.Expr} {builder : Option String} {d : Code.Decoder}
    {args : List (Supplied H.Value)} {selection : Option Selection}
    (hself : frame.self? = some .service)
    (hmap : c.expr frame map = pure (.arguments (sent H args)))
    (hnested : frame.nested builder = (pure selection : Eval H _)) :
    outcome (c.stmts frame [
        .bind Client.requestLocal false (.attempt (.request kind f.name map builder)),
        .bind Client.responseLocal false (.attempt (.send (.var Client.requestLocal))),
        .return (.decode (.borrow (.var Client.responseLocal)) f.name d .required)])
      = OptionT.lift (Datum.ofAnswer <$> respond H kind f args selection d) := by
  rw [Context.stmts, stmt_request hmap hnested]
  by_cases hempty : selection = some []
  · subst hempty
    apply OptionT.ext
    simp [Request.of, respond, Datum.ofAnswer, outcome]
  · have hof : Request.of kind f.name (sent H args) selection
        = .ok ⟨kind, f.name, sent H args, selection⟩ := by
      unfold Request.of
      split
      · exact absurd rfl hempty
      · rfl
    have hrespond : respond H kind f args selection d
        = answer H ⟨kind, f.name, sent H args, selection⟩ d := by
      unfold respond
      split
      · exact absurd rfl hempty
      · rfl
    rw [hof, hrespond, pure_bind, Context.stmts,
      stmt_send (q := ⟨kind, f.name, sent H args, selection⟩) (by simp [hself])
        (by simp [Frame.get?_bind])]
    apply OptionT.ext
    simp only [outcome, answer, ExceptT.run_bind, ExceptT.run_mk, OptionT.run_mk, bind_assoc,
      OptionT.run_lift, map_bind]
    congr 1
    funext x
    cases x with
    | error e => simp [Datum.ofAnswer]
    | ok members =>
        simp [Context.stmts, Context.stmt, Context.expr, Frame.get?_bind, Response.required]
        cases Entries.get? f.name members <;> simp [Datum.ofAnswer]

end

/-! ## Services -/

/-- Among the methods of a service is the one for a root field, and it does what the field
declares: whatever is passed for the arguments, with a selection exactly if the field's type has
fields to select, it responds through any transport, by the decoder that is picked for that type. -/
structure Answers (r : Registry) (cls : Code.Class) (kind : OperationKind) (f : Schema.Field) :
    Prop where
  signature : ∃ method resolved,
    cls.methods.find? (·.name = kind.text ++ "_" ++ Client.memberName f.name) = some method ∧
    Signature r f method.params ∧
    (∀ context, Client.resolveConcrete r f.type context = .ok resolved) ∧
    method.returns = .fallible (.ofResolved resolved)
  responds : ∃ resolved d, HasDecoder r f.type resolved d ∧
    Decodes r f.type d (.ofResolved resolved) ∧
    ∀ {m : Type → Type} [Monad m] [LawfulMonad m] (H : Host m) (depth : Nat)
      (args : List (Supplied H.Value)) (selection : Option Selection),
      args.map (·.input) = f.arguments →
      selection.isSome = (Client.selected? r f.type).isSome →
      invoke H cls (depth + 1) (kind.text ++ "_" ++ Client.memberName f.name) (some .service)
          ((selection.map .builder).toList ++ args.map (·.datum H))
        = OptionT.lift (Datum.ofAnswer <$> respond H kind f args selection d)

section

variable {r : Registry} {kind : OperationKind} {f : Schema.Field} {d : Code.Decoder}
  {as : List ArgumentParam}

theorem invoke_operation {m : Type → Type} [Monad m] [LawfulMonad m] {H : Host m}
    {cls : Code.Class} {name : String} {resolved : ResolvedType} {builder : Option String}
    (hplanned : Client.Planned r Client.serviceLocals f.arguments as)
    (hfind : cls.methods.find? (·.name = name)
      = some (Client.serviceMember kind f resolved builder (.ofParams as) d).method)
    (depth : Nat) {args : List (Supplied H.Value)} (hargs : args.map (·.input) = f.arguments)
    {selection : Option Selection} (hselection : selection.isSome = builder.isSome) :
    invoke H cls (depth + 1) name (some .service)
        ((selection.map .builder).toList ++ args.map (·.datum H))
      = OptionT.lift (Datum.ofAnswer <$> respond H kind f args selection d) := by
  obtain ⟨frame, hself, hmap, hnested, hinvoke⟩ := invoke_planned hplanned (by decide) (by decide)
    hargs hselection hfind (by simp [Client.serviceMember]) rfl rfl depth .service
  rw [hinvoke]
  exact outcome_request hself hmap hnested

theorem answers_of_operationMember {home : Namespace} (hr : r.WellFormed home) {cls : Code.Class}
    {service : String} {member : Client.ServiceMember}
    (h : Client.operationMember r service kind f = .ok member)
    (hfind : cls.methods.find? (·.name = member.method.name) = some member.method) :
    Answers r cls kind f := by
  obtain ⟨context, resolved, d, as, hres, hd, hplanned, rfl⟩ := Client.operationMember_ok h
  refine ⟨⟨_, resolved, hfind, signature_of_planned hr hres hplanned,
    fun _ => Client.resolveConcrete_context hres _, rfl⟩, resolved, d, hasDecoder_of_ok hres hd,
    decodes_of_ok hres hd, fun H depth args selection hargs hselection =>
      invoke_operation hplanned hfind depth hargs ?_⟩
  rw [hselection, Client.selectedObject?_eq hr hres]
  simp

theorem answers_of_service {home : Namespace} (hr : r.WellFormed home) {item : Code.Model}
    (h : Client.service r = .ok item) :
    ∃ cls, item.artifact = .service cls ∧ ∀ kind, ∀ f ∈ r.operations kind, Answers r cls kind f := by
  obtain ⟨members, hmembers, hartifact⟩ := Client.service_members h
  refine ⟨_, hartifact, fun kind f hf => ?_⟩
  obtain ⟨member, hm, hmember⟩ :=
    Outcome.mem_of_forall₂ hmembers.for_operations _ (Client.mem_operations.mpr hf)
  have hnames : ((members.map (·.method)).map (·.name)).Nodup := by
    rw [List.map_map]
    exact hmembers.methods.of_cons
  exact answers_of_operationMember hr hmember
    (Entries.find?_of_nodup hnames (List.mem_map_of_mem hm) rfl)

end

/-- For every schema that a client is generated for, the service has a method for each query and
mutation, and it does what the root field declares. -/
theorem service_answers {options : Options} {text : String} {files : List GeneratedFile}
    {warnings : List Warning} (h : generate options text = .ok (files, warnings)) :
    ∃ r ms, registryOfText options.home options.substitutions text = .ok (r, warnings) ∧
      Client.models r = .ok ms ∧
      ∃ item ∈ ms, ∃ cls, item.artifact = .service cls ∧
        ∀ kind, ∀ f ∈ r.operations kind, Answers r cls kind f := by
  obtain ⟨r, ms, hr, hms, _⟩ := generate_ok h
  obtain ⟨document, _, found, _, hbuild⟩ := registryOfText_ok hr
  obtain ⟨items, hitems, hsub⟩ := Client.exists_items hms .service
  obtain ⟨item, hitem, hitems⟩ := Outcome.bind_ok.mp hitems
  cases hitems
  obtain ⟨cls, hcls, hanswers⟩ :=
    answers_of_service (Registry.wellFormed_of_build hbuild) hitem
  exact ⟨r, ms, hr, hms, item, hsub item List.mem_cons_self, cls, hcls, hanswers⟩

/-- People have friends, who are people. -/
def people : String := "type Query \x7b user(id: ID!, lang: String): User \x7d
  type User \x7b name: String friends(first: Int): [User!] \x7d"

def peopleClient : { out // generate .standard people = .ok out } :=
  Outcome.get _ (by decide +kernel)

theorem service_answers_people : ∃ files warnings r ms,
    generate .standard people = .ok (files, warnings) ∧
    registryOfText .default [] people = .ok (r, warnings) ∧ Client.models r = .ok ms ∧
    ∃ item ∈ ms, ∃ cls, item.artifact = .service cls ∧
      ∃ f ∈ r.operations .query, (Client.selected? r f.type).isSome = true ∧
        Answers r cls .query f := by
  obtain ⟨⟨files, warnings⟩, h⟩ := peopleClient
  obtain ⟨r, ms, hr, hms, item, hitem, cls, hcls, hanswers⟩ := service_answers h
  have htest : ∃ out, registryOfText .default [] people = .ok out ∧
      (out.1.queries.any fun f => (Client.selected? out.1 f.type).isSome) = true :=
    Outcome.any_eq_true.mp (by decide +kernel)
  obtain ⟨out, hout, htest⟩ := htest
  cases hr.symm.trans hout
  obtain ⟨f, hf, hselected⟩ := List.any_eq_true.mp htest
  exact ⟨files, warnings, r, ms, h, hr, hms, item, hitem, cls, hcls, f, hf, hselected,
    hanswers .query f hf⟩

end Graphwright.Execution
