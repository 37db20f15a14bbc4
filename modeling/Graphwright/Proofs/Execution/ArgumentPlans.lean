import Graphwright.Proofs.Client.MemberNames
import Graphwright.Proofs.Execution.Arguments

/-!
# What a plan for arguments does

A plan has a parameter for each argument. The parameters have names of their own, apart from the
locals of the method and from the parameters before them, also when they are spelled; and whatever
is passed for them, the statements of the plan leave a map behind that holds the required arguments
and then the optional ones that are there.
-/
namespace Graphwright

namespace Code

/-- No nullable layer stands directly below another one. -/
def TypeExpr.NullableOnce : TypeExpr → Prop
  | nullable inner => (∀ t, inner ≠ nullable t) ∧ inner.NullableOnce
  | list element => element.NullableOnce
  | hydrated inner => inner.NullableOnce
  | boxed inner => inner.NullableOnce
  | builtin _ | named _ | self | responseMap => True

namespace TypeExpr

theorem nullableOnce_ofResolved (t : ResolvedType) : (ofResolved t).NullableOnce := by
  induction t with
  | named isNullable target =>
      cases target <;> cases isNullable <;> simp [ofResolved, NullableOnce]
  | list isNullable element ih => cases isNullable <;> simp [ofResolved, NullableOnce, ih]

/-- Without its outermost nullable layer such a type has none there. -/
theorem NullableOnce.nonNull {t : TypeExpr} (h : t.NullableOnce) :
    (∀ u, t.nonNull ≠ nullable u) ∧ t.nonNull.NullableOnce := by
  cases t with
  | nullable inner => exact h
  | _ => exact ⟨fun _ e => (by cases e), h⟩

end TypeExpr

end Code

namespace Execution

open Client (ArgumentPlan Members)
open Rust (Ident Distinct)

/-- A parameter for an argument: it has the name of the argument, unless that is reserved, and its
type has a nullable layer, and only one, if the argument may be left out. -/
structure ParamFor (r : Registry) (reserved : List String) (p : Code.Param) (i : Schema.Input) :
    Prop where
  name : p.name = Client.paramName reserved i.name
  type : IsParam r p i
  nullable_iff : (∃ inner, p.type = .nullable inner) ↔ i.isOptional = true
  nullableOnce : p.type.NullableOnce

theorem nullable_of_isParam {r : Registry} {p : Code.Param} {i : Schema.Input}
    (h : IsParam r p i) :
    ((∃ inner, p.type = .nullable inner) ↔ i.isOptional = true) ∧ p.type.NullableOnce := by
  obtain ⟨_, resolved, _, htype⟩ := h
  obtain ⟨hne, honce⟩ := (Code.TypeExpr.nullableOnce_ofResolved resolved).nonNull
  rw [htype]
  cases i.isOptional with
  | true => exact ⟨by simp, hne, honce⟩
  | false => exact ⟨by simpa using hne, honce⟩

theorem paramFor_of_planned {r : Registry} {reserved : List String} {inputs : List Schema.Input}
    {as : List Client.ArgumentParam} (h : Client.Planned r reserved inputs as) :
    List.Forall₂ (fun a i => ParamFor r reserved a.toParam i) as inputs := by
  have hnames : List.Forall₂ (fun a i => a.param = Client.paramName reserved i.name) as inputs := by
    have heq := List.forall₂_eq_eq_eq ▸ h.names
    rwa [List.forall₂_map_left_iff, List.forall₂_map_right_iff] at heq
  refine List.Forall₂.mp (fun a i hname ha => ?_) hnames h.for_inputs
  have hparam := isParam_of_for ha
  obtain ⟨hiff, honce⟩ := nullable_of_isParam hparam
  exact ⟨hname, hparam, hiff, honce⟩

/-- Each parameter is a local with what is passed for its argument. -/
def Passed {m : Type → Type} {H : Host m} (frame : Frame H) (params : List Code.Param)
    (args : List (Supplied H.Value)) : Prop :=
  List.Forall₂ (fun p s => Entries.get? p.name frame.locals = some (s.datum H)) params args

/-- Whatever is passed for the arguments, the statements of a plan leave the other locals as they
are, and behind them its expression is the map of what is to be sent: the required arguments, then
the optional ones that have a value. -/
def Assembles (plan : ArgumentPlan) (arguments : List Schema.Input) : Prop :=
  ∀ (m : Type → Type) [Monad m] [LawfulMonad m] (H : Host m) (c : Context H) (frame : Frame H)
    (args : List (Supplied H.Value)), args.map (·.input) = arguments →
    Passed frame plan.params args →
    ∃ frame', c.stmts frame plan.setup = pure frame' ∧
      c.expr frame' plan.map = pure (.arguments (sent H args)) ∧ frame'.self? = frame.self? ∧
      ∀ name, name ≠ Client.argumentsLocal →
        Entries.get? name frame'.locals = Entries.get? name frame.locals

theorem assembles_of_planned {r : Registry} {reserved : List String} {inputs : List Schema.Input}
    {as : List Client.ArgumentParam} (h : Client.Planned r reserved inputs as)
    (hlocal : Client.argumentsLocal ∈ reserved) : Assembles (.ofParams as) inputs := by
  intro m _ _ H c frame args hargs hpassed
  have hlocals := List.forall₂_map_left_iff.mp hpassed
  obtain ⟨hsetup, hmap⟩ := planned_run (c := c) (passes_of_locals h hlocal hargs hlocals)
    (nodup_names_of_planned h hargs)
  exact ⟨_, hsetup, hmap, frame.self?_planned as args,
    fun name hne => frame.get?_planned as args (Ne.symm hne)⟩

/-- A plan has a parameter for each argument, in order, and each parameter has a name of its own
that is neither reserved nor taken, also as it is spelled; and the plan assembles what is passed. -/
theorem planArguments_assembles {r : Registry} {owner : String} {arguments : List Schema.Input}
    {reserved : List String} {scope : Members} {plan : ArgumentPlan}
    (hreserved : reserved = Client.serviceLocals ∨ reserved = Client.builderLocals)
    (h : Client.planArguments r owner arguments reserved scope = .ok plan) :
    List.Forall₂ (ParamFor r reserved) plan.params arguments ∧
      (plan.params.map (·.name)).Nodup ∧
      (∀ p ∈ plan.params, p.name ∉ reserved ∧ p.name ∉ scope.names) ∧
      Distinct Ident.escaped (plan.params.map (·.name) ++ reserved) ∧
      Assembles plan arguments := by
  obtain ⟨as, has, e⟩ := Outcome.bind_ok.mp h
  cases e
  have hfresh : ∀ w ∈ reserved, w ++ "_arg" ∉ reserved := by
    rcases hreserved with rfl | rfl <;> decide
  have hlocal : Client.argumentsLocal ∈ reserved := by
    rcases hreserved with rfl | rfl <;> decide
  have hplanned := Client.planned_of_ok has hfresh
  have hscope := (Client.argumentParams_ok has).2.fresh
  have hnames : (ArgumentPlan.ofParams as).params.map (·.name) = as.map (·.param) := by
    rw [ArgumentPlan.ofParams, List.map_map]
    rfl
  rw [hnames]
  refine ⟨?_, hplanned.nodup, ?_, ?_, assembles_of_planned hplanned hlocal⟩
  · rw [ArgumentPlan.ofParams, List.forall₂_map_left_iff]
    exact paramFor_of_planned hplanned
  · rw [ArgumentPlan.ofParams, List.forall_mem_map]
    exact fun a ha => ⟨hplanned.not_mem a ha, hscope a.param (List.mem_map_of_mem ha)⟩
  · have hsub : ([] ++ reserved).Sublist reserved := List.Sublist.refl _
    refine hplanned.distinct hsub ?_ ?_
    · rcases hreserved with rfl | rfl <;> decide
    · rcases hreserved with rfl | rfl <;> decide +kernel

/-- A host whose values are integers. -/
def integers : Host Id where
  Value := Int
  toInput := .int
  Decoded := Unit
  decode _ _ := .ok ()
  send _ := pure []

/-- What is passed for the pages of a list: `first` is left out, `after` is given in spite of its
default. -/
def paging : List (Supplied Int) := [
  ⟨⟨"arguments", none, .nonNull (.named "Int"), none⟩, some 1, by decide⟩,
  ⟨⟨"first", none, .named "Int", none⟩, none, by decide⟩,
  ⟨⟨"after", none, .nonNull (.named "Int"), some "0"⟩, some 3, by decide⟩,
  ⟨⟨"page", none, .nonNull (.named "Int"), none⟩, some 4, by decide⟩]

def pagingParams : List String := ["arguments_arg", "first", "after", "page"]

def pagingFrame : Frame integers := ⟨none, pagingParams.zip (paging.map (·.datum integers))⟩

theorem planArguments_assembles_paging : ∃ plan frame,
    Client.planArguments (.empty .default) "query pages" (paging.map (·.input))
      Client.serviceLocals (.withReserved "query_pages" [(Client.selectionParam, "selection")])
        = .ok plan ∧
    plan.params.map (·.name) = pagingParams ∧ Passed pagingFrame plan.params paging ∧
    Context.stmts ⟨[], fun _ _ _ => failure⟩ pagingFrame plan.setup = pure frame ∧
    Context.expr ⟨[], fun _ _ _ => failure⟩ frame plan.map
      = pure (.arguments [("arguments", .int 1), ("page", .int 4), ("after", .int 3)]) := by
  have hplan : ∃ plan, Client.planArguments (.empty .default) "query pages" (paging.map (·.input))
      Client.serviceLocals (.withReserved "query_pages" [(Client.selectionParam, "selection")])
        = .ok plan ∧ decide (plan.params.map (·.name) = pagingParams) = true :=
    Outcome.any_eq_true.mp (by decide +kernel)
  obtain ⟨plan, hplan, hnames⟩ := hplan
  have hnames := of_decide_eq_true hnames
  have hpassed : Passed pagingFrame plan.params paging := by
    have hlocals : List.Forall₂ (fun name s => Entries.get? name pagingFrame.locals
        = some (s.datum integers)) (plan.params.map (·.name)) paging := by
      rw [hnames]
      exact .cons rfl (.cons rfl (.cons rfl (.cons rfl .nil)))
    exact List.forall₂_map_left_iff.mp hlocals
  obtain ⟨_, _, _, _, hassembles⟩ := planArguments_assembles (Or.inl rfl) hplan
  obtain ⟨frame, hsetup, hmap, _⟩ := hassembles Id integers ⟨[], fun _ _ _ => failure⟩ pagingFrame
    paging rfl hpassed
  exact ⟨plan, frame, hplan, hnames, hpassed, hsetup, hmap⟩

end Execution

end Graphwright
