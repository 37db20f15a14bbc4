import Graphwright.Proofs.Execution.Correctness

/-!
# Null at a non-null layer

Where a type does not accept null, neither does the decoder that is picked for it. Main statement: a
value that has null at a layer that is non-null is not read, at whatever depth. Custom scalars are the
one exception: they are kept as they came, and null is kept too.
-/
namespace Graphwright.Execution

open Code (Model)

/-- The value is null at a layer of the type that is non-null: at the type itself where it is not
`nullable`, or at a layer below it. At a named type null counts if `counts` holds of the name. -/
inductive NullAt (counts : String → Prop) : (nullable : Bool) → Schema.TypeRef → Json → Prop
  | named {name} (h : counts name) : NullAt counts false (.named name) .null
  | list {element} : NullAt counts false (.list element) .null
  | element {nullable element v vs} (hv : v ∈ vs) (h : NullAt counts true element v) :
      NullAt counts nullable (.list element) (.array vs)
  | nonNull {nullable type v} (h : NullAt counts false type v) :
      NullAt counts nullable (.nonNull type) v

/-- A decoder does not read a value. -/
def Rejects (P : Program) (d : Code.Decoder) (v : Json) : Prop :=
  ∃ e, run P d v = .error e

section

variable {P : Program} {d : Code.Decoder}

theorem rejects_iff {v : Json} : Rejects P d v ↔ ∀ w, run P d v ≠ .ok w := by
  unfold Rejects
  cases run P d v <;> simp

theorem rejects_null_list : Rejects P (.list d) .null := by
  rw [Rejects, run_list]
  exact ⟨_, rfl⟩

/-- A list is rejected along with any of its elements. -/
theorem Rejects.list {v : Json} {vs : List Json} (h : Rejects P d v) (hv : v ∈ vs) :
    Rejects P (.list d) (.array vs) := by
  rw [rejects_iff] at h ⊢
  intro w hw
  rw [run_list] at hw
  obtain ⟨ws, hws, _⟩ := Outcome.map_ok.mp hw
  obtain ⟨u, _, hu⟩ := Outcome.exists_of_mapM hws hv
  exact h u hu

theorem Rejects.nullable {v : Json} (h : Rejects P d v) (hv : v ≠ .null) :
    Rejects P (.nullable d) v := by
  obtain ⟨e, h⟩ := h
  refine ⟨e, ?_⟩
  rw [run, h]
  · rfl
  · exact hv

/-- Null is a value of a custom scalar, and of no other named type. -/
theorem rejects_null_of_ofTarget {context : String} {target : Target}
    (hd : Code.Decoder.ofTarget context target = .ok d)
    (ht : ∀ name path, target ≠ .registered name .customScalar path) : Rejects P d .null := by
  cases target with
  | builtin p =>
      cases hd
      rw [Rejects, run]
      cases p <;> exact ⟨_, rfl⟩
  | registered name category path =>
      cases category with
      | customScalar => exact absurd rfl (ht name path)
      | enumeration =>
          cases hd
          rw [Rejects, run]
          exact ⟨_, rfl⟩
      | outputObject | interface =>
          cases hd
          rw [Rejects, run]
          · exact ⟨_, rfl⟩
          · exact fun _ => Json.noConfusion
      | inputObject | union => cases hd

end

/-- A name that stands for a custom scalar of the schema. -/
def IsCustomScalar (r : Registry) (name : String) : Prop :=
  r.categoryOf? name = some .customScalar

/-- The decoder that is picked for a type does not read null at a non-null layer of the type. -/
theorem rejects_of_nullAt {r : Registry} {P : Program} {nullable : Bool} {type : Schema.TypeRef}
    {v : Json} (hv : NullAt (fun name => ¬ IsCustomScalar r name) nullable type v)
    {context context' : String} {resolved : ResolvedType} {d : Code.Decoder}
    (hres : r.resolveLayer context nullable type = .ok resolved)
    (hd : Code.Decoder.ofResolved context' resolved = .ok d) : Rejects P d v := by
  induction hv generalizing resolved d with
  | @named name hname =>
      have ht := Registry.resolveLayer_base hres
      simp only [Registry.resolveLayer] at hres
      split at hres
      · cases hres
        obtain ⟨d', hd', hd⟩ := Outcome.bind_ok.mp hd
        cases hd
        refine rejects_null_of_ofTarget hd' fun n path e => hname ?_
        rw [e] at ht
        obtain ⟨_, t, hf, hcategory, _⟩ := Registry.target?_eq_registered ht
        exact (congrArg (Option.map (·.category)) hf).trans (congrArg some hcategory)
      · cases hres
  | list =>
      obtain ⟨inner, _, rfl⟩ := Outcome.map_ok.mp hres
      obtain ⟨d', _, hd⟩ := Outcome.bind_ok.mp hd
      cases hd
      exact rejects_null_list
  | @element nullable element v vs hmem _ ih =>
      obtain ⟨inner, hinner, rfl⟩ := Outcome.map_ok.mp hres
      obtain ⟨d', hd', hd⟩ := Outcome.bind_ok.mp hd
      cases hd
      have hlist : Rejects P (.list d') (.array vs) := (ih hinner hd').list hmem
      cases nullable with
      | false => exact hlist
      | true => exact hlist.nullable Json.noConfusion
  | nonNull _ ih => exact ih hres hd

/-- For every type of a response there is a decoder, and it does not read a value with null at a
layer that is non-null, where that counts. -/
def RejectsNulls (counts : String → Prop) (r : Registry) (P : Program) : Prop :=
  ∀ type, IsResponseType r type → ∀ context, ∃ resolved d,
    Client.resolveConcrete r type context = .ok resolved ∧
    Code.Decoder.ofResolved context resolved = .ok d ∧
    ∀ v, NullAt counts true type v → Rejects P d v

/-- At a non-null layer of a custom scalar null is read as it is. -/
def KeepsNulls (r : Registry) (P : Program) : Prop :=
  ∀ name, IsCustomScalar r name → ∀ context, ∃ resolved d,
    Client.resolveConcrete r (.nonNull (.named name)) context = .ok resolved ∧
    Code.Decoder.ofResolved context resolved = .ok d ∧ run P d .null = .ok (.raw .null)

theorem keepsNulls {home : Namespace} {r : Registry} (hr : r.WellFormed home) (P : Program) :
    KeepsNulls r P := by
  intro name hname context
  obtain ⟨t, hf, hcategory⟩ := Option.map_eq_some_iff.mp hname
  obtain ⟨hmem, hn⟩ := Registry.mem_of_find? hf
  have htarget : r.target? name = some (.registered name t.category t.artifactPath) := by
    have hb : Primitive.ofName? name = none := hn ▸ hr.notBuiltin t hmem
    simp only [Registry.target?, hb, hf, Option.map_some, hn]
  have hlayer : r.resolve (.nonNull (.named name)) context =
      .ok (.named false (.registered name t.category t.artifactPath)) := by
    simp only [Registry.resolve, Registry.resolveLayer, htarget]
  have hconcrete : t.IsConcrete := by
    rw [RegisteredType.IsConcrete, hcategory]
    exact ⟨Schema.Category.noConfusion, Schema.Category.noConfusion⟩
  rw [hcategory] at hlayer
  refine ⟨_, .customScalar t.artifactPath,
    Client.resolveConcrete_ok.mpr ⟨hlayer, t, hf, hcategory, rfl, hconcrete⟩, rfl, ?_⟩
  rw [run]
  rfl

/-- For a schema without substitutions that a client is generated for, no decoder reads null at a
non-null layer, but for custom scalars, which keep it. -/
theorem models_rejectNulls {home : Namespace} {text : String} {r : Registry}
    {warnings : List Warning} {ms : List Model}
    (hr : registryOfText home [] text = .ok (r, warnings)) (h : Client.models r = .ok ms) :
    RejectsNulls (fun name => ¬ IsCustomScalar r name) r ⟨home, ms⟩ ∧ KeepsNulls r ⟨home, ms⟩ := by
  obtain ⟨document, _, found, _, hbuild⟩ := registryOfText_ok hr
  refine ⟨fun type ht context => ?_, keepsNulls (Registry.wellFormed_of_build hbuild) _⟩
  obtain ⟨resolved, d, hdecoder⟩ :=
    exists_hasDecoder_of_models (Registry.unsubstituted_of_build hbuild) h ht
  obtain ⟨hres, hd⟩ := hdecoder context
  exact ⟨resolved, d, hres, hd, fun v hv =>
    rejects_of_nullAt hv (Client.resolveConcrete_ok.mp hres).1 hd⟩

/-- A schema with a custom scalar, a list of enum values and an object, none of which accepts null. -/
def calendar : String :=
  "scalar Date enum Day \x7b MON TUE \x7d type Event \x7b on: [Day!]! at: Date! \x7d " ++
    "type Query \x7b today: Date! next: Event! \x7d"

/-- The registry of the calendar has the custom scalar and an operation of its type. -/
theorem models_calendar : ∃ r warnings ms,
    registryOfText .default [] calendar = .ok (r, warnings) ∧ Client.models r = .ok ms ∧
    IsCustomScalar r "Date" ∧ IsResponseType r (.nonNull (.named "Date")) := by
  have hrun : Outcome.any (registryOfText .default [] calendar) (fun out =>
      Outcome.any (Client.models out.1) fun _ =>
        out.1.categoryOf? "Date" = some .customScalar ∧
          ∃ f ∈ out.1.queries, f.type = .nonNull (.named "Date")) = true := by
    decide +kernel
  obtain ⟨⟨r, warnings⟩, hr, hrun⟩ := Outcome.any_eq_true.mp hrun
  obtain ⟨ms, hms, htest⟩ := Outcome.any_eq_true.mp hrun
  obtain ⟨hscalar, hquery⟩ := of_decide_eq_true htest
  exact ⟨r, warnings, ms, hr, hms, hscalar, Or.inr ⟨.query, hquery⟩⟩

theorem models_rejectNulls_calendar : ∃ r warnings ms,
    registryOfText .default [] calendar = .ok (r, warnings) ∧ Client.models r = .ok ms ∧
    RejectsNulls (fun name => ¬ IsCustomScalar r name) r ⟨.default, ms⟩ ∧
    KeepsNulls r ⟨.default, ms⟩ := by
  obtain ⟨r, warnings, ms, hr, h, _, _⟩ := models_calendar
  exact ⟨r, warnings, ms, hr, h, models_rejectNulls hr h⟩

/-- If null counts at custom scalars too, there is a decoder that reads it where it counts. -/
theorem exists_not_rejectsNulls : ∃ r warnings ms,
    registryOfText .default [] calendar = .ok (r, warnings) ∧ Client.models r = .ok ms ∧
    ¬ RejectsNulls (fun _ => True) r ⟨.default, ms⟩ := by
  obtain ⟨r, warnings, ms, hr, h, hscalar, htype⟩ := models_calendar
  obtain ⟨document, _, found, _, hbuild⟩ := registryOfText_ok hr
  refine ⟨r, warnings, ms, hr, h, fun hrejects => ?_⟩
  obtain ⟨resolved, d, hres, hd, hnull⟩ := hrejects _ htype "today"
  obtain ⟨resolved', d', hres', hd', hkept⟩ :=
    keepsNulls (Registry.wellFormed_of_build hbuild) ⟨.default, ms⟩ "Date" hscalar "today"
  cases hres.symm.trans hres'
  cases hd.symm.trans hd'
  exact rejects_iff.mp (hnull .null (.nonNull (.named trivial))) _ hkept

end Graphwright.Execution
