import Graphwright.Proofs.Client.Emission
import Graphwright.Proofs.Client.Members
import Graphwright.Proofs.Entries
import Graphwright.Proofs.Execution.Methods

/-!
# Parameters and the maps made of them

The map that a method assembles from its parameters holds the required arguments in the order in
which they are declared, and behind them the optional ones that have a value. An optional argument
that was left out does not occur in it.
-/
namespace Graphwright.Execution

open Client (ArgumentParam ArgumentPlan)

variable {m : Type → Type}

/-- What is passed for an argument or a field of an input object: a value, or none if it may be
left out. -/
structure Supplied (V : Type) where
  input : Schema.Input
  value : Option V
  isSome : input.isOptional = false → value.isSome = true

namespace Supplied

def datum (H : Host m) (s : Supplied H.Value) : Datum H :=
  match s.input.isOptional, s.value with
  | false, some v => .value v
  | _, value => .option value

theorem datum_of_isOptional (H : Host m) {s : Supplied H.Value} (h : s.input.isOptional = true) :
    s.datum H = .option s.value := by
  rw [datum, h]

def pair? (H : Host m) (s : Supplied H.Value) : Option (String × InputValue) :=
  s.value.map fun v => (s.input.name, H.toInput v)

end Supplied

/-- The entries for all that has a value. -/
def given (H : Host m) (args : List (Supplied H.Value)) : Arguments :=
  args.filterMap (·.pair? H)

/-- The arguments that are sent: the required ones, then the optional ones that are there. -/
def sent (H : Host m) (args : List (Supplied H.Value)) : Arguments :=
  given H (args.filter (!·.input.isOptional)) ++ given H (args.filter (·.input.isOptional))

section Sent

variable {H : Host m}

theorem given_cons_none {s : Supplied H.Value} (hv : s.value = none)
    (args : List (Supplied H.Value)) : given H (s :: args) = given H args := by
  simp [given, Supplied.pair?, hv]

theorem given_cons_some {s : Supplied H.Value} {v : H.Value} (hv : s.value = some v)
    (args : List (Supplied H.Value)) :
    given H (s :: args) = (s.input.name, H.toInput v) :: given H args := by
  simp [given, Supplied.pair?, hv]

theorem mem_names_given {args : List (Supplied H.Value)} {name : String} :
    name ∈ Entries.names (given H args) ↔
      ∃ s ∈ args, s.input.name = name ∧ s.value.isSome = true := by
  simp only [Entries.names, given, List.mem_map, List.mem_filterMap, Supplied.pair?,
    Option.map_eq_some_iff]
  constructor
  · rintro ⟨_, ⟨s, hs, v, hv, rfl⟩, rfl⟩
    exact ⟨s, hs, rfl, by simp [hv]⟩
  · rintro ⟨s, hs, rfl, hv⟩
    obtain ⟨v, hv⟩ := Option.isSome_iff_exists.mp hv
    exact ⟨_, ⟨s, hs, v, hv, rfl⟩, rfl⟩

theorem mem_names_sent {args : List (Supplied H.Value)} {name : String} :
    name ∈ Entries.names (sent H args) ↔
      ∃ s ∈ args, s.input.name = name ∧ s.value.isSome = true := by
  rw [sent, Entries.names_append, List.mem_append, mem_names_given, mem_names_given]
  constructor
  · rintro (⟨s, hs, h⟩ | ⟨s, hs, h⟩) <;> exact ⟨s, List.mem_of_mem_filter hs, h⟩
  · rintro ⟨s, hs, h⟩
    cases ho : s.input.isOptional with
    | false => exact Or.inl ⟨s, List.mem_filter.mpr ⟨hs, by simp [ho]⟩, h⟩
    | true => exact Or.inr ⟨s, List.mem_filter.mpr ⟨hs, ho⟩, h⟩

theorem sublist_names_given (args : List (Supplied H.Value)) :
    (Entries.names (given H args)).Sublist (args.map (·.input.name)) := by
  induction args with
  | nil => exact .slnil
  | cons s args ih =>
      rw [List.map_cons]
      cases hv : s.value with
      | none => rw [given_cons_none hv]; exact ih.cons _
      | some v => rw [given_cons_some hv]; exact ih.cons_cons _

theorem nodup_names_sent {args : List (Supplied H.Value)}
    (h : (args.map (·.input.name)).Nodup) : (Entries.names (sent H args)).Nodup := by
  rw [sent, Entries.names_append, List.nodup_append]
  have hsub : ∀ p : Supplied H.Value → Bool,
      (Entries.names (given H (args.filter p))).Sublist (args.map (·.input.name)) :=
    fun p => (sublist_names_given _).trans (List.filter_sublist.map _)
  refine ⟨h.sublist (hsub _), h.sublist (hsub _), ?_⟩
  intro a ha b hb e
  subst e
  obtain ⟨s, hs, rfl, _⟩ := mem_names_given.mp ha
  obtain ⟨s', hs', he, _⟩ := mem_names_given.mp hb
  obtain ⟨hs, ho⟩ := List.mem_filter.mp hs
  obtain ⟨hs', ho'⟩ := List.mem_filter.mp hs'
  cases List.inj_on_of_nodup_map h hs' hs he
  rw [ho'] at ho
  cases ho

end Sent

/-! ## Locals -/

/-- Each parameter is found among the locals, with what is passed for it. -/
theorem forall₂_get? {H : Host m} {α : Type} {param : α → String} {as : List α}
    {args : List (Supplied H.Value)} (first : List (String × Datum H))
    (hlength : as.length = args.length) (hn : (Entries.names first ++ as.map param).Nodup) :
    List.Forall₂ (fun a s =>
      Entries.get? (param a) (first ++ (as.map param).zip (args.map (·.datum H)))
        = some (s.datum H)) as args := by
  have hnames : Entries.names (first ++ (as.map param).zip (args.map (·.datum H)))
      = Entries.names first ++ as.map param := by
    rw [Entries.names_append, Entries.names, Entries.names, List.map_fst_zip (by simp [hlength])]
  rw [← hnames] at hn
  rw [List.forall₂_iff_zip]
  refine ⟨hlength, fun {a s} h => Entries.get?_eq_of_mem hn (List.mem_append_right _ ?_)⟩
  rw [List.zip_map]
  exact List.mem_map.mpr ⟨(a, s), h, rfl⟩

/-! ## Running a plan -/

/-- A local is the parameter that takes what is passed for an argument. -/
structure Passes {H : Host m} (frame : Frame H) (a : ArgumentParam) (s : Supplied H.Value) :
    Prop where
  argument : a.argument = s.input.name
  isOptional : a.isOptional = s.input.isOptional
  datum : Entries.get? a.param frame.locals = some (s.datum H)
  ne_local : a.param ≠ Client.argumentsLocal

theorem nodup_names_of_planned {V : Type} {r : Registry} {reserved : List String}
    {inputs : List Schema.Input} {as : List ArgumentParam}
    (h : Client.Planned r reserved inputs as) {args : List (Supplied V)}
    (hargs : args.map (·.input) = inputs) : (args.map (·.input.name)).Nodup := by
  have hinputs := h.nodup_inputs
  rwa [← hargs, List.map_map] at hinputs

theorem passes_of_locals {H : Host m} {r : Registry} {reserved : List String}
    {inputs : List Schema.Input} {as : List ArgumentParam}
    (h : Client.Planned r reserved inputs as) (hlocal : Client.argumentsLocal ∈ reserved)
    {args : List (Supplied H.Value)} (hargs : args.map (·.input) = inputs) {frame : Frame H}
    (hlocals : List.Forall₂ (fun a s => Entries.get? a.param frame.locals = some (s.datum H))
      as args) : List.Forall₂ (Passes frame) as args := by
  have hfor : List.Forall₂ (fun a s => a.For r s.input) as args := by
    rw [← List.forall₂_map_right_iff, hargs]
    exact h.for_inputs
  have hall := (List.forall₂_and_left _ _).mpr
    ⟨h.not_mem, List.Forall₂.mp (fun _ _ ha hs => And.intro ha hs) hfor hlocals⟩
  exact hall.imp fun a s ⟨hfree, ha, hs⟩ =>
    ⟨ha.argument, ha.isOptional, hs, fun e => hfree (e ▸ hlocal)⟩

theorem passes_of_planned {H : Host m} {r : Registry} {reserved : List String}
    {inputs : List Schema.Input} {as : List ArgumentParam}
    (h : Client.Planned r reserved inputs as) (hlocal : Client.argumentsLocal ∈ reserved)
    {args : List (Supplied H.Value)} (hargs : args.map (·.input) = inputs)
    (first : List (String × Datum H)) (hfirst : (Entries.names first).Nodup)
    (hreserved : ∀ name ∈ Entries.names first, name ∈ reserved) (self? : Option (Datum H)) :
    List.Forall₂ (Passes ⟨self?, first ++ (as.map (·.param)).zip (args.map (·.datum H))⟩)
      as args := by
  have hlength : as.length = args.length := by
    rw [h.for_inputs.length_eq, ← hargs, List.length_map]
  have hn : (Entries.names first ++ as.map (·.param)).Nodup := by
    refine hfirst.append h.nodup fun name hname hparam => ?_
    obtain ⟨a, ha, rfl⟩ := List.mem_map.mp hparam
    exact h.not_mem a ha (hreserved _ hname)
  exact passes_of_locals h hlocal hargs (forall₂_get? first hlength hn)

/-- The frame in which the map of a plan is to be found. -/
def Frame.planned {H : Host m} (frame : Frame H) (as : List ArgumentParam)
    (args : List (Supplied H.Value)) : Frame H :=
  if as.filter (·.isOptional) = [] then frame
  else frame.bind Client.argumentsLocal (.arguments (sent H args))

theorem Frame.self?_planned {H : Host m} (frame : Frame H) (as : List ArgumentParam)
    (args : List (Supplied H.Value)) : (frame.planned as args).self? = frame.self? := by
  unfold planned
  split <;> rfl

theorem Frame.get?_planned {H : Host m} (frame : Frame H) (as : List ArgumentParam)
    (args : List (Supplied H.Value)) {name : String} (h : Client.argumentsLocal ≠ name) :
    Entries.get? name (frame.planned as args).locals = Entries.get? name frame.locals := by
  unfold planned
  split
  · rfl
  · rw [get?_bind, if_neg h]

section Plan

variable [Monad m] [LawfulMonad m] {H : Host m} {c : Context H}

/-- A literal holds what is passed for the required ones of some parameters. -/
theorem entries_required {frame : Frame H} {α : Type} {key : α → Code.Expr} {param : α → String}
    {isOptional : α → Bool} {as : List α} {args : List (Supplied H.Value)}
    (h : List.Forall₂ (fun a s => c.expr frame (key a) = pure (.text s.input.name) ∧
      isOptional a = s.input.isOptional ∧
      Entries.get? (param a) frame.locals = some (s.datum H)) as args) :
    c.entries frame ((as.filter (!isOptional ·)).map fun a => (key a, .toInput (.var (param a))))
      = pure (given H (args.filter (!·.input.isOptional))) := by
  induction h with
  | nil => rfl
  | @cons a s as args ha _ ih =>
      obtain ⟨hkey, hoptional, hdatum⟩ := ha
      cases ho : s.input.isOptional with
      | true => simpa [hoptional, ho] using ih
      | false =>
          obtain ⟨v, hv⟩ := Option.isSome_iff_exists.mp (s.isSome ho)
          have hvalue : c.expr frame (.toInput (.var (param a))) = pure (.input (H.toInput v)) := by
            rw [Supplied.datum, ho, hv] at hdatum
            simp [Context.expr, hdatum]
          rw [List.filter_cons_of_pos (by simp [hoptional, ho]),
            List.filter_cons_of_pos (by simp [ho]), List.map_cons, Context.entries, hkey, hvalue,
            ih, given_cons_some hv]
          simp

/-- The optional arguments that have a value are appended to the map, one after the other. -/
theorem stmts_optional {frame : Frame H} {as : List ArgumentParam}
    {args : List (Supplied H.Value)} (h : List.Forall₂ (Passes frame) as args) (acc : Arguments)
    (hn : (Entries.names (acc ++ given H (args.filter (·.input.isOptional)))).Nodup) :
    c.stmts (frame.bind Client.argumentsLocal (.arguments acc))
        ((as.filter (·.isOptional)).map fun a =>
          .insertIfPresent (.var Client.argumentsLocal) (.str a.argument) a.param)
      = pure (frame.bind Client.argumentsLocal
          (.arguments (acc ++ given H (args.filter (·.input.isOptional))))) := by
  induction h generalizing acc with
  | nil => simp [Context.stmts, given]
  | @cons a s as args ha h ih =>
      cases ho : s.input.isOptional with
      | false => simpa [ha.isOptional, ho] using ih acc (by simpa [ho] using hn)
      | true =>
          have hd : Entries.get? a.param (frame.bind Client.argumentsLocal (.arguments acc)).locals
              = some (.option s.value) := by
            rw [Frame.get?_bind, if_neg (Ne.symm ha.ne_local), ha.datum,
              Supplied.datum_of_isOptional H ho]
          have has : (a :: as).filter (·.isOptional) = a :: as.filter (·.isOptional) :=
            List.filter_cons_of_pos (by rw [ha.isOptional, ho])
          have hargs : (s :: args).filter (·.input.isOptional)
              = s :: args.filter (·.input.isOptional) := List.filter_cons_of_pos ho
          rw [hargs] at hn ⊢
          rw [has, List.map_cons, Context.stmts]
          cases hv : s.value with
          | none =>
              rw [given_cons_none hv] at hn ⊢
              simpa [Context.stmt, Context.expr, hd, hv] using ih acc hn
          | some v =>
              rw [given_cons_some hv] at hn ⊢
              have hnew := Entries.not_mem_of_nodup hn
              rw [List.append_cons] at hn ⊢
              have hput : (frame.bind Client.argumentsLocal (.arguments acc)).update?
                  (Datum.insert? s.input.name (H.toInput v)) (.var Client.argumentsLocal)
                  = some (frame.bind Client.argumentsLocal
                    (.arguments (acc ++ [(s.input.name, H.toInput v)]))) := by
                rw [Frame.update?, Frame.get?_bind, if_pos rfl]
                simp [Frame.bind, Datum.insert?, Arguments.insert, Entries.put_of_not_mem hnew,
                  Entries.put_put]
              simpa [Context.stmt, Context.expr, hd, hv, hput, ha.argument] using ih _ hn

/-- The statements of a plan assemble the arguments to be sent. -/
theorem planned_run {frame : Frame H} {as : List ArgumentParam} {args : List (Supplied H.Value)}
    (h : List.Forall₂ (Passes frame) as args) (hn : (args.map (·.input.name)).Nodup) :
    c.stmts frame (ArgumentPlan.ofParams as).setup = pure (frame.planned as args) ∧
      c.expr (frame.planned as args) (ArgumentPlan.ofParams as).map
        = pure (.arguments (sent H args)) := by
  have hsent := nodup_names_sent hn
  have hliteral : c.expr frame (.arguments ((as.filter (!·.isOptional)).map (·.entry)))
      = pure (.arguments (given H (args.filter (!·.input.isOptional)))) := by
    rw [sent, Entries.names_append] at hsent
    have hrequired : c.entries frame ((as.filter (!·.isOptional)).map (·.entry))
        = pure (given H (args.filter (!·.input.isOptional))) :=
      entries_required <| h.imp fun a s hs =>
        ⟨by rw [Context.expr, hs.argument], hs.isOptional, hs.datum⟩
    rw [Context.expr, hrequired]
    simp [Arguments.ofList, Entries.collect_eq hsent.of_append_left]
  unfold Frame.planned ArgumentPlan.ofParams
  by_cases ho : as.filter (·.isOptional) = []
  · have hfilter : List.Forall₂ (Passes frame) (as.filter (·.isOptional))
        (args.filter (·.input.isOptional)) :=
      List.rel_filter (fun a s hs => by simp [hs.isOptional]) h
    rw [ho, List.forall₂_nil_left_iff] at hfilter
    simp [ho, Context.stmts, hliteral, sent, hfilter, given]
  · simp only [if_neg ho]
    refine ⟨?_, by simp [Context.expr, Frame.get?_bind]⟩
    rw [Context.stmts, Context.stmt, hliteral]
    simpa [sent] using stmts_optional h _ hsent

end Plan

/-! ## Calls with a selection -/

/-- A parameter has the type of an argument, and may be left out if that may. -/
def IsParam (r : Registry) (p : Code.Param) (i : Schema.Input) : Prop :=
  ∃ context resolved, Client.resolveConcrete r i.type context = .ok resolved ∧
    p.type = if i.isOptional then .nullable (Code.TypeExpr.ofResolved resolved).nonNull
      else (Code.TypeExpr.ofResolved resolved).nonNull

theorem isParam_of_for {r : Registry} {a : ArgumentParam} {i : Schema.Input} (h : a.For r i) :
    IsParam r a.toParam i := by
  obtain ⟨context, resolved, hres, htype⟩ := h.type
  exact ⟨context, resolved, hres, by rw [ArgumentParam.toParam, h.isOptional, htype]⟩

/-- A method for a field takes the builder of its type, if that has fields to select, and something
for each of its arguments. -/
def Signature (r : Registry) (f : Schema.Field) (params : List Code.Param) : Prop :=
  ∃ rest, List.Forall₂ (IsParam r) rest f.arguments ∧
    params = ((Client.selected? r f.type).map fun t =>
      Client.nestedParam (r.home.selectionPath t.name)).toList ++ rest

theorem signature_of_planned {home : Namespace} {r : Registry} (hr : r.WellFormed home)
    {f : Schema.Field} {context : String} {resolved : ResolvedType} {reserved : List String}
    {as : List ArgumentParam} (hres : Client.resolveConcrete r f.type context = .ok resolved)
    (h : Client.Planned r reserved f.arguments as) :
    Signature r f ((((Client.selectedObject? resolved).map r.home.selectionPath).map
      Client.nestedParam).toList ++ (ArgumentPlan.ofParams as).params) := by
  refine ⟨_, ?_, by rw [Client.selectedObject?_eq hr hres, Option.map_map, Option.map_map]; rfl⟩
  rw [ArgumentPlan.ofParams, List.forall₂_map_left_iff]
  exact h.for_inputs.imp fun _ _ ha => isParam_of_for ha

section Selecting

variable {H : Host m} {as : List ArgumentParam} {args : List (Supplied H.Value)}

/-- The local for a selection, where one is passed. -/
def selectionLocal (selection : Option Selection) : List (String × Datum H) :=
  (selection.map fun s => (Client.selectionParam, .builder s)).toList

theorem locals_eq {builder : Option String} {selection : Option Selection}
    (hselection : selection.isSome = builder.isSome) (hlength : as.length = args.length) :
    let params := (builder.map Client.nestedParam).toList ++ (ArgumentPlan.ofParams as).params
    let passed := (selection.map Datum.builder).toList ++ args.map (·.datum H)
    params.length = passed.length ∧ (params.map (·.name)).zip passed
      = selectionLocal selection ++ (as.map (·.param)).zip (args.map (·.datum H)) := by
  have hnames : (ArgumentPlan.ofParams as).params.map (·.name) = as.map (·.param) := by
    simp [ArgumentPlan.ofParams, ArgumentParam.toParam, Function.comp_def]
  have hcount : (ArgumentPlan.ofParams as).params.length = args.length := by
    simp [ArgumentPlan.ofParams, hlength]
  cases selection with
  | none =>
      cases builder with
      | none => exact ⟨by simpa using hcount, by simp [hnames, selectionLocal]⟩
      | some path => cases hselection
  | some s =>
      cases builder with
      | none => cases hselection
      | some path =>
          exact ⟨by simpa using hcount, by simp [hnames, selectionLocal, Client.nestedParam]⟩

variable [Monad m] [LawfulMonad m]

/-- A method that starts with a plan goes on where the map of arguments is assembled and the
selection is at hand. -/
theorem invoke_planned {r : Registry} {reserved : List String} {inputs : List Schema.Input}
    (h : Client.Planned r reserved inputs as) (hlocal : Client.argumentsLocal ∈ reserved)
    (hparam : Client.selectionParam ∈ reserved) (hargs : args.map (·.input) = inputs)
    {builder : Option String} {selection : Option Selection}
    (hselection : selection.isSome = builder.isSome) {cls : Code.Class} {name : String}
    {method : Code.Method} {rest : List Code.Stmt}
    (hfind : cls.methods.find? (·.name = name) = some method) (hreceiver : method.receiver ≠ .static)
    (hparams : method.params =
      (builder.map Client.nestedParam).toList ++ (ArgumentPlan.ofParams as).params)
    (hbody : method.body = (ArgumentPlan.ofParams as).setup ++ rest) (depth : Nat)
    (self : Datum H) :
    ∃ frame : Frame H, frame.self? = some self ∧
      Context.expr ⟨cls.constants, invoke H cls depth⟩ frame (ArgumentPlan.ofParams as).map
        = pure (.arguments (sent H args)) ∧
      (frame.nested (builder.map fun _ => Client.selectionParam) : Eval H _) = pure selection ∧
      invoke H cls (depth + 1) name (some self)
          ((selection.map .builder).toList ++ args.map (·.datum H))
        = outcome (Context.stmts ⟨cls.constants, invoke H cls depth⟩ frame rest) := by
  have hpasses := passes_of_planned h hlocal hargs (selectionLocal selection)
    (by cases selection <;> simp [selectionLocal, Entries.names])
    (by cases selection <;> simp [selectionLocal, Entries.names, hparam]) (some self)
  obtain ⟨hlength, hlocals⟩ := locals_eq hselection hpasses.length_eq
  obtain ⟨hsetup, hmap⟩ := planned_run (c := ⟨cls.constants, invoke H cls depth⟩) hpasses
    (nodup_names_of_planned h hargs)
  refine ⟨_, Frame.self?_planned _ as args, hmap, ?_, ?_⟩
  · cases selection with
    | none =>
        cases builder with
        | none => rfl
        | some path => cases hselection
    | some s =>
        cases builder with
        | none => cases hselection
        | some path =>
            rw [Option.map_some, Frame.nested, Frame.get?_planned _ _ _ (by decide)]
            simp [selectionLocal, Entries.get?, Datum.builder]
  · rw [invoke_succ hfind (hparams ▸ hlength) (by simp [hreceiver]), hbody, hparams, hlocals,
      Context.stmts_append, hsetup, pure_bind]

end Selecting

end Graphwright.Execution
