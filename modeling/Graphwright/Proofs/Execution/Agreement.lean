import Graphwright.Proofs.Client.OutputObject
import Graphwright.Proofs.Entries
import Graphwright.Proofs.Execution.Conformance

/-!
# Decoders agree with types

The decoder that is picked for a type, layer by layer, reads exactly the values that conform to the
type. The induction is on the size of the value, and within it on the type: an element of a list and
a member of an object are smaller, and a layer of the type is.
-/
namespace Graphwright.Execution

open Code (EnumValue)
open Client (OutputMember MembersOf outputMember)

/-- What the factory of an object with these members does. -/
def Factory.ofMembers (members : List OutputMember) : Factory where
  slots := members.map (·.name)
  steps := members.map fun m => ⟨m.name, m.field.name, m.decoder⟩

/-- The items of a program are those of the registry's types, none of which is substituted. -/
structure Program.Implements (P : Program) (r : Registry) : Prop where
  unsubstituted : ∀ t ∈ r.types, t.substitution = none
  enumeration : ∀ t ∈ r.types, ∀ values, t.definition.shape = .enumeration values →
    ∃ found : List EnumValue, P.values? t.generatedPath = some found ∧
      found.map (·.wireName) = values.map (·.name)
  customScalar : ∀ t ∈ r.types, t.definition.shape = .scalar → P.hasScalar t.generatedPath = true
  object : ∀ t ∈ r.types, ∀ interfaces fields, t.definition.shape = .object interfaces fields →
    ∃ members, MembersOf r t.name fields members ∧
      P.factory? t.generatedPath = some (.ofMembers members)

/-- On one value, a decoder reads what the type says and reads it if it conforms. -/
structure Agrees (r : Registry) (P : Program) (nullable : Bool) (type : Schema.TypeRef)
    (d : Code.Decoder) (v : Json) : Prop where
  sound : ∀ w, run P d v = .ok w → Reads r nullable type v w
  complete : Conforms r nullable type v → ∃ w, run P d v = .ok w

variable {r : Registry} {P : Program}

/-! ## Layers -/

theorem Agrees.nonNull {nullable : Bool} {type : Schema.TypeRef} {d : Code.Decoder} {v : Json}
    (h : Agrees r P false type d v) : Agrees r P nullable (.nonNull type) d v := by
  refine ⟨fun w hw => .nonNull (h.sound w hw), fun hc => ?_⟩
  cases nullable with
  | false =>
      cases hc with
      | nonNull hc => exact h.complete hc
  | true =>
      cases hc with
      | null hn => cases hn
      | present hc =>
          cases hc with
          | nonNull hc => exact h.complete hc

theorem Agrees.nullable {type : Schema.TypeRef} {d : Code.Decoder} {v : Json}
    (hn : type.isNonNull = false) (h : Agrees r P false type d v) :
    Agrees r P true type (.nullable d) v := by
  by_cases hv : v = .null
  · subst hv
    have hrun : run P (.nullable d) .null = .ok .absent := by rw [run_nullable]; rfl
    refine ⟨fun w hw => ?_, fun _ => ⟨_, hrun⟩⟩
    cases hrun.symm.trans hw
    exact .null hn
  · have hrun : run P (.nullable d) v = .present <$> run P d v := by
      rw [run]
      exact hv
    refine ⟨fun w hw => ?_, fun hc => ?_⟩
    · rw [hrun] at hw
      obtain ⟨u, hu, rfl⟩ := Outcome.map_ok.mp hw
      exact .present hn hv (h.sound u hu)
    · obtain ⟨u, hu⟩ := h.complete (hc.of_ne_null hv)
      exact ⟨.present u, hrun.trans (Outcome.map_ok.mpr ⟨u, hu, rfl⟩)⟩

theorem readsElements_of_mapM {element : Schema.TypeRef} {d : Code.Decoder} {vs : List Json}
    {ws : List Value} (h : ∀ v ∈ vs, Agrees r P true element d v)
    (hrun : vs.mapM (run P d) = .ok ws) : ReadsElements r element vs ws := by
  have hall := Outcome.mapM_ok.mp hrun
  clear hrun
  induction hall with
  | nil => exact .nil
  | cons hv _ ih =>
      exact .cons ((h _ List.mem_cons_self).sound _ hv)
        (ih fun v hv => h v (List.mem_cons_of_mem _ hv))

theorem Agrees.list {element : Schema.TypeRef} {d : Code.Decoder} {v : Json}
    (h : ∀ u, sizeOf u < sizeOf v → Agrees r P true element d u) :
    Agrees r P false (.list element) (.list d) v := by
  cases v with
  | array vs =>
      have hrun : run P (.list d) (.array vs) = .list <$> vs.mapM (run P d) := by
        rw [run_list]
        rfl
      have helement : ∀ u ∈ vs, Agrees r P true element d u := by
        intro u hu
        have := List.sizeOf_lt_of_mem hu
        exact h u (by simp only [Json.array.sizeOf_spec]; omega)
      refine ⟨fun w hw => ?_, fun hc => ?_⟩
      · rw [hrun] at hw
        obtain ⟨ws, hws, rfl⟩ := Outcome.map_ok.mp hw
        exact .list (readsElements_of_mapM helement hws)
      · cases hc with
        | list hc =>
            obtain ⟨ws, hws⟩ :=
              Outcome.exists_mapM fun u hu => (helement u hu).complete (hc u hu)
            exact ⟨.list ws, hrun.trans (Outcome.map_ok.mpr ⟨ws, hws, rfl⟩)⟩
  | _ =>
      refine ⟨fun w hw => ?_, fun hc => ?_⟩
      · rw [run_list] at hw
        cases hw
      · cases hc

/-! ## Scalars and enums -/

theorem ofName?_eq_some {name : String} {p : Primitive} (h : Primitive.ofName? name = some p) :
    p = .integer ∧ name = "Int" ∨ p = .float ∧ name = "Float" ∨ p = .boolean ∧ name = "Boolean" ∨
      p = .text ∧ (name = "String" ∨ name = "ID") := by
  unfold Primitive.ofName? at h
  split at h <;> cases h <;> simp

theorem int32_ok {v : Json} {n : Int} :
    Response.int32 v = .ok n ↔ v = .number (.integer n) ∧ -Int.pow 2 31 ≤ n ∧ n < Int.pow 2 31 := by
  unfold Response.int32 Response.integer
  split
  · rename_i m
    split
    · rename_i hm
      constructor
      · intro h; cases h; exact ⟨rfl, hm⟩
      · rintro ⟨e, _⟩; cases e; rfl
    · rename_i hm
      constructor
      · intro h; cases h
      · rintro ⟨e, h⟩; cases e; exact absurd h hm
  · rename_i hne
    constructor
    · intro h; cases h
    · rintro ⟨rfl, _⟩; exact absurd rfl (hne n)

/-- Built-in scalars are read as their names say. -/
theorem Agrees.scalar {name : String} {p : Primitive} (hr : ∀ t, r.find? name ≠ some t)
    (hp : Primitive.ofName? name = some p) (v : Json) :
    Agrees r P false (.named name) (.scalar p) v := by
  constructor
  · intro w hw
    rw [run] at hw
    rcases ofName?_eq_some hp with ⟨rfl, rfl⟩ | ⟨rfl, rfl⟩ | ⟨rfl, rfl⟩ | ⟨rfl, rfl | rfl⟩
    · obtain ⟨n, hn, rfl⟩ := Outcome.map_ok.mp hw
      obtain ⟨rfl, hlo, hhi⟩ := int32_ok.mp hn
      exact .int hlo hhi
    · obtain ⟨x, hx, rfl⟩ := Outcome.map_ok.mp hw
      unfold Response.float64 at hx
      split at hx <;> cases hx
      · exact .floatOfInt
      · exact .float
    · obtain ⟨b, hb, rfl⟩ := Outcome.map_ok.mp hw
      unfold Response.boolean at hb
      split at hb <;> cases hb
      exact .boolean
    · obtain ⟨s, hs, rfl⟩ := Outcome.map_ok.mp hw
      unfold Response.text at hs
      split at hs <;> cases hs
      exact .string
    · obtain ⟨s, hs, rfl⟩ := Outcome.map_ok.mp hw
      unfold Response.text at hs
      split at hs <;> cases hs
      exact .id
  · intro hc
    rw [run]
    cases hc with
    | int hlo hhi =>
        cases hp
        exact ⟨_, Outcome.map_ok.mpr ⟨_, int32_ok.mpr ⟨rfl, hlo, hhi⟩, rfl⟩⟩
    | @float n =>
        cases hp
        cases n <;> exact ⟨_, rfl⟩
    | boolean => cases hp; exact ⟨_, rfl⟩
    | string => cases hp; exact ⟨_, rfl⟩
    | id => cases hp; exact ⟨_, rfl⟩
    | enumeration hf => exact absurd hf (hr _)
    | customScalar hf => exact absurd hf (hr _)
    | object hf => exact absurd hf (hr _)

theorem enumeration_ok {path : String} {values : List EnumValue} {v : Json} {w : Value} :
    enumeration path values v = .ok w ↔
      ∃ s ∈ values.map (·.wireName), v = .string s ∧ w = .enumeration s := by
  unfold enumeration
  rw [Outcome.map_ok]
  constructor
  · rintro ⟨value, h, rfl⟩
    unfold Response.enumeration at h
    split at h
    · rename_i s
      split at h
      · rename_i found hf
        cases h
        have hs := List.find?_some hf
        simp only [decide_eq_true_eq] at hs
        exact ⟨value.wireName, List.mem_map_of_mem (List.mem_of_find?_eq_some hf),
          congrArg Json.string hs.symm, rfl⟩
      · cases h
    · cases h
  · rintro ⟨s, hs, rfl, rfl⟩
    obtain ⟨value, hv, rfl⟩ := List.mem_map.mp hs
    have hsome : (values.find? (·.wireName = value.wireName)).isSome = true := by
      rw [List.find?_isSome]
      exact ⟨value, hv, by simp⟩
    obtain ⟨found, hf⟩ := Option.isSome_iff_exists.mp hsome
    have hname := List.find?_some hf
    simp only [decide_eq_true_eq] at hname
    refine ⟨found, ?_, by rw [hname]⟩
    have hread : @WireEnum.ofText? _ (wireEnum path values) value.wireName = some found := hf
    simp only [Response.enumeration, hread]

section Registered

variable {name : String} {t : RegisteredType}

theorem Agrees.enumeration {values : List Schema.EnumValue} {found : List EnumValue} {path : String}
    (hb : Primitive.ofName? name = none) (hf : r.find? name = some t)
    (hs : t.definition.shape = .enumeration values) (hp : P.values? path = some found)
    (hnames : found.map (·.wireName) = values.map (·.name)) (v : Json) :
    Agrees r P false (.named name) (.enumeration path) v := by
  have hrun : run P (.enumeration path) v = Execution.enumeration path found v := by
    rw [run, hp]
    rfl
  constructor
  · intro w hw
    rw [hrun, enumeration_ok, hnames] at hw
    obtain ⟨s, hmem, rfl, rfl⟩ := hw
    obtain ⟨value, hv, rfl⟩ := List.mem_map.mp hmem
    exact .enumeration hf hs hv
  · intro hc
    rw [hrun]
    rcases hc.of_find? hb hf with ⟨_, value, hs', hv, rfl⟩ | hs' | ⟨_, _, _, hs', _⟩
    · cases hs.symm.trans hs'
      exact ⟨_, enumeration_ok.mpr ⟨_, hnames ▸ List.mem_map_of_mem hv, rfl, rfl⟩⟩
    · cases hs.symm.trans hs'
    · cases hs.symm.trans hs'

theorem Agrees.customScalar {path : String} (hf : r.find? name = some t)
    (hs : t.definition.shape = .scalar) (v : Json) :
    Agrees r P false (.named name) (.customScalar path) v := by
  have hrun : run P (.customScalar path) v = .ok (.raw v) := by
    rw [run]
    rfl
  refine ⟨fun w hw => ?_, fun _ => ⟨_, hrun⟩⟩
  cases hrun.symm.trans hw
  exact .customScalar hf hs

end Registered

/-! ## Objects -/

/-- A slot is that of a member, with what the member's decoder makes of its entry. -/
def Fills (P : Program) (entries : List (String × Json)) (m : OutputMember)
    (slot : String × Slot Value) : Prop :=
  slot.1 = m.name ∧ Response.field entries m.field.name (run P m.decoder) = .ok slot.2

/-- The steps fill one slot after the other, each from its own entry. -/
theorem runSteps_ok {entries : List (String × Json)} {members : List OutputMember}
    {done slots : List (String × Slot Value)}
    (hnodup : (Entries.names done ++ members.map (·.name)).Nodup) :
    runSteps P entries (Factory.ofMembers members).steps
        (done ++ members.map fun m => (m.name, .unset)) = .ok slots ↔
      ∃ found, slots = done ++ found ∧ List.Forall₂ (Fills P entries) members found := by
  induction members generalizing done with
  | nil =>
      have hrun : runSteps P entries [] (done ++ []) = .ok done := by
        rw [runSteps, List.append_nil]
      constructor
      · intro h
        cases hrun.symm.trans h
        exact ⟨[], by simp, .nil⟩
      · rintro ⟨found, rfl, h⟩
        cases h
        rw [List.append_nil]
        exact hrun
  | cons m members ih =>
      have hm : m.name ∉ Entries.names done := by
        intro hin
        rw [List.nodup_append] at hnodup
        exact hnodup.2.2 _ hin _ (by simp) rfl
      have hnext : ∀ slot : Slot Value,
          (Entries.names (done ++ [(m.name, slot)]) ++ members.map (·.name)).Nodup := by
        intro slot
        simpa [Entries.names] using hnodup
      have hstep : ∀ slot : Slot Value, Entries.put m.name slot
          (done ++ (m :: members).map fun m => (m.name, .unset)) =
            (done ++ [(m.name, slot)]) ++ members.map fun m => (m.name, .unset) := by
        intro slot
        rw [List.map_cons, Entries.put_append hm, List.append_assoc, List.singleton_append]
      rw [show (Factory.ofMembers (m :: members)).steps =
        ⟨m.name, m.field.name, m.decoder⟩ :: (Factory.ofMembers members).steps from rfl,
        runSteps_cons, Outcome.bind_ok]
      simp only [hstep]
      constructor
      · rintro ⟨slot, hslot, h⟩
        obtain ⟨found, rfl, hall⟩ := (ih (hnext slot)).mp h
        exact ⟨(m.name, slot) :: found, by simp, .cons ⟨rfl, hslot⟩ hall⟩
      · rintro ⟨found, rfl, hall⟩
        cases hall with
        | @cons _ s _ found hs hall =>
            obtain ⟨name, slot⟩ := s
            obtain ⟨rfl, hslot⟩ := hs
            exact ⟨slot, hslot, (ih (hnext slot)).mpr ⟨found, by simp, hall⟩⟩

theorem readsFields_of_forall₂ {entries : List (String × Json)} {members : List OutputMember}
    {slots : List (String × Slot Value)}
    (h : ∀ m ∈ members, m.name = Client.memberName m.field.name ∧
      ∀ v, Entries.get? m.field.name entries = some v → Agrees r P true m.field.type m.decoder v)
    (hall : List.Forall₂ (Fills P entries) members slots) :
    ReadsFields r entries (members.map (·.field)) slots := by
  induction hall with
  | nil => exact .nil
  | @cons m s members slots hs _ ih =>
      obtain ⟨name, slot⟩ := s
      obtain ⟨rfl, hslot⟩ := hs
      obtain ⟨hname, hagrees⟩ := h m List.mem_cons_self
      have ih := ih fun m hm => h m (List.mem_cons_of_mem _ hm)
      unfold Response.field at hslot
      split at hslot
      · rename_i v hv
        obtain ⟨w, hw, rfl⟩ := Outcome.map_ok.mp hslot
        rw [hname]
        exact .set hv ((hagrees v hv).sound w hw) ih
      · rename_i hv
        cases hslot
        rw [hname]
        exact .unset hv ih

/-- A slot can be filled if its entry, if there is one, conforms. -/
theorem exists_fills {entries : List (String × Json)} {m : OutputMember}
    (h : ∀ v, Entries.get? m.field.name entries = some v → Agrees r P true m.field.type m.decoder v)
    (hc : ∀ v, Entries.get? m.field.name entries = some v → Conforms r true m.field.type v) :
    ∃ slot, Fills P entries m slot := by
  cases hv : Entries.get? m.field.name entries with
  | none => exact ⟨(m.name, .unset), rfl, by simp [Response.field, hv]⟩
  | some v =>
      obtain ⟨w, hw⟩ := (h v hv).complete (hc v hv)
      exact ⟨(m.name, .set w), rfl, by simp [Response.field, hv, hw, Functor.map, Except.map]⟩

theorem Agrees.object {name path : String} {t : RegisteredType} {interfaces : List String}
    {fields : List Schema.Field} {members : List OutputMember}
    (hb : Primitive.ofName? name = none) (hf : r.find? name = some t)
    (hs : t.definition.shape = .object interfaces fields) (hmem : MembersOf r t.name fields members)
    (hp : P.factory? path = some (.ofMembers members)) {v : Json}
    (h : ∀ m ∈ members, ∀ u, sizeOf u < sizeOf v → Agrees r P true m.field.type m.decoder u) :
    Agrees r P false (.named name) (.object path) v := by
  cases v with
  | object entries =>
      have hrun : run P (.object path) (.object entries) = .object <$> runSteps P entries
          (Factory.ofMembers members).steps ([] ++ members.map fun m => (m.name, .unset)) := by
        rw [run_object P hp, Response.object, Factory.ofMembers, List.map_map]
        rfl
      have hmember : ∀ m ∈ members, m.name = Client.memberName m.field.name ∧
          ∀ u, Entries.get? m.field.name entries = some u →
            Agrees r P true m.field.type m.decoder u := by
        refine fun m hm => ⟨(hmem.isEmitted m hm).name_eq, fun u hu => h m hm u ?_⟩
        have := sizeOf_get?_lt hu
        simp only [Json.object.sizeOf_spec]
        omega
      have hsteps : ∀ slots, runSteps P entries (Factory.ofMembers members).steps
          ([] ++ members.map fun m => (m.name, .unset)) = .ok slots ↔ _ :=
        fun slots => runSteps_ok hmem.nodup
      constructor
      · intro w hw
        rw [hrun] at hw
        obtain ⟨slots, hslots, rfl⟩ := Outcome.map_ok.mp hw
        obtain ⟨found, rfl, hall⟩ := (hsteps slots).mp hslots
        have hreads := readsFields_of_forall₂ hmember hall
        rw [hmem.fields_eq] at hreads
        exact .object hf hs hreads
      · intro hc
        rcases hc.of_find? hb hf with ⟨_, _, hs', _⟩ | hs' | ⟨_, _, _, hs', e, hc⟩
        · cases hs.symm.trans hs'
        · cases hs.symm.trans hs'
        · cases hs.symm.trans hs'
          cases e
          have hfilled : ∀ m ∈ members, ∃ slot, Fills P entries m slot := fun m hm =>
            exists_fills (hmember m hm).2 (hc m.field (hmem.fields_eq ▸ List.mem_map_of_mem hm))
          obtain ⟨found, hall⟩ := Outcome.exists_forall₂ hfilled
          exact ⟨.object found, hrun.trans (Outcome.map_ok.mpr
            ⟨found, (hsteps found).mpr ⟨found, by simp, hall⟩, rfl⟩)⟩
  | _ =>
      refine ⟨fun w hw => ?_, fun hc => ?_⟩
      · rw [run_object P hp] at hw
        cases hw
      · rcases hc.of_find? hb hf with ⟨_, _, hs', _⟩ | hs' | ⟨_, _, _, _, e, _⟩
        · cases hs.symm.trans hs'
        · cases hs.symm.trans hs'
        · cases e

/-! ## All types -/

theorem Agrees.wrap {nullable : Bool} {type : Schema.TypeRef} {d : Code.Decoder} {v : Json}
    (hn : type.isNonNull = false) (h : Agrees r P false type d v) :
    Agrees r P nullable type (if nullable then .nullable d else d) v := by
  cases nullable with
  | false => exact h
  | true => exact h.nullable hn

/-- A member decodes as its field's type says, boxed or not. -/
theorem Agrees.member {owner : String} {f : Schema.Field} {resolved : ResolvedType}
    {d : Code.Decoder} {v : Json} (h : Agrees r P true f.type d v) :
    Agrees r P true f.type (outputMember r owner f resolved d).decoder v := by
  have hrun : run P (outputMember r owner f resolved d).decoder v = run P d v := by
    simp only [outputMember]
    split
    · exact run_onHeap P d v
    · rfl
  exact ⟨fun w hw => h.sound w (hrun ▸ hw), fun hc => hrun ▸ h.complete hc⟩

/-- What is picked for a registered type goes by the shape of its definition. -/
theorem ofTarget_registered {t : RegisteredType} {name context : String} {d : Code.Decoder}
    (hs : t.substitution = none) (hc : t.IsConcrete)
    (hd : Code.Decoder.ofTarget context (.registered name t.category t.artifactPath) = .ok d) :
    t.definition.shape = .scalar ∧ d = .customScalar t.generatedPath ∨
    (∃ values, t.definition.shape = .enumeration values ∧ d = .enumeration t.generatedPath) ∨
    ∃ interfaces fields, t.definition.shape = .object interfaces fields ∧
      d = .object t.generatedPath := by
  have hpath : t.artifactPath = t.generatedPath := by rw [RegisteredType.artifactPath, hs]; rfl
  obtain ⟨hunion, hinterface⟩ := hc
  rw [RegisteredType.isSubstituted, hs] at hinterface
  rw [hpath] at hd
  rw [RegisteredType.category, Schema.Definition.category] at hd hunion hinterface
  cases hshape : t.definition.shape with
  | scalar => rw [hshape] at hd; cases hd; exact Or.inl ⟨rfl, rfl⟩
  | enumeration values =>
      rw [hshape] at hd
      cases hd
      exact Or.inr (Or.inl ⟨values, rfl, rfl⟩)
  | object interfaces fields =>
      rw [hshape] at hd
      cases hd
      exact Or.inr (Or.inr ⟨interfaces, fields, rfl, rfl⟩)
  | inputObject fields => rw [hshape] at hd; cases hd
  | union members => rw [hshape] at hunion; exact absurd rfl hunion
  | interface fields => rw [hshape] at hinterface; cases hinterface rfl

/-- What the decoder of a name's target reads, if members of smaller values are read right. -/
theorem Agrees.named {home : Namespace} (hr : r.WellFormed home) (hP : P.Implements r)
    {name context : String} {target : Target} {d : Code.Decoder} {v : Json}
    (ht : r.target? name = some target) (hc : Client.ConcreteBase r target)
    (hd : Code.Decoder.ofTarget context target = .ok d)
    (h : ∀ u, sizeOf u < sizeOf v → ∀ owner (m : OutputMember), m.IsEmitted r owner →
      Agrees r P true m.field.type m.decoder u) :
    Agrees r P false (.named name) d v := by
  cases target with
  | builtin p =>
      cases hd
      have hq := Registry.target?_eq_builtin ht
      refine .scalar (fun t hf => ?_) hq v
      obtain ⟨hmem, hn⟩ := Registry.mem_of_find? hf
      rw [← hn, hr.notBuiltin t hmem] at hq
      cases hq
  | registered n category path =>
      obtain ⟨rfl, t, hf, rfl, rfl⟩ := Registry.target?_eq_registered ht
      obtain ⟨hmem, hn⟩ := Registry.mem_of_find? hf
      have hb : Primitive.ofName? n = none := hn ▸ hr.notBuiltin t hmem
      obtain ⟨t', hf', _, _, hconcrete⟩ := hc
      cases hf.symm.trans hf'
      rcases ofTarget_registered (hP.unsubstituted t hmem) hconcrete hd with
        ⟨hs, rfl⟩ | ⟨values, hs, rfl⟩ | ⟨interfaces, fields, hs, rfl⟩
      · exact .customScalar hf hs v
      · obtain ⟨found, hfound, hnames⟩ := hP.enumeration t hmem values hs
        exact .enumeration hb hf hs hfound hnames v
      · obtain ⟨members, hmembers, hfactory⟩ := hP.object t hmem interfaces fields hs
        exact .object hb hf hs hmembers hfactory fun m hm u hu =>
          h u hu t.name m (hmembers.isEmitted m hm)

/-- The items that a picked decoder refers to are there. -/
theorem binds (hP : P.Implements r) {context : String} {resolved : ResolvedType} {d : Code.Decoder}
    (hc : Client.ConcreteBase r resolved.base)
    (hd : Code.Decoder.ofResolved context resolved = .ok d) : P.Binds d := by
  have hwrap : ∀ {nullable : Bool} {d : Code.Decoder}, P.Binds d →
      P.Binds (if nullable then .nullable d else d) := by
    intro nullable d h
    cases nullable <;> exact h
  induction resolved generalizing d with
  | list nullable element ih =>
      obtain ⟨d', hd', hd⟩ := Outcome.bind_ok.mp hd
      rw [← Outcome.pure_ok.mp hd]
      have hbinds := ih hc hd'
      exact hwrap hbinds
  | named nullable target =>
      obtain ⟨d', hd', hd⟩ := Outcome.bind_ok.mp hd
      rw [← Outcome.pure_ok.mp hd]
      apply hwrap
      cases target with
      | builtin p => cases hd'; trivial
      | registered name category path =>
          obtain ⟨t, hf, rfl, rfl, hconcrete⟩ := hc
          have hmem := (Registry.mem_of_find? hf).1
          rcases ofTarget_registered (hP.unsubstituted t hmem) hconcrete hd' with
            ⟨hs, rfl⟩ | ⟨values, hs, rfl⟩ | ⟨interfaces, fields, hs, rfl⟩
          · exact hP.customScalar t hmem hs
          · obtain ⟨found, hfound, _⟩ := hP.enumeration t hmem values hs
            exact Option.isSome_iff_exists.mpr ⟨found, hfound⟩
          · obtain ⟨members, _, hfactory⟩ := hP.object t hmem interfaces fields hs
            exact Option.isSome_iff_exists.mpr ⟨_, hfactory⟩

/-- The decoder that is picked for a type reads what the type says. -/
theorem agrees {home : Namespace} (hr : r.WellFormed home) (hP : P.Implements r) (v : Json) :
    ∀ {type : Schema.TypeRef} {nullable : Bool} {context context' : String}
      {resolved : ResolvedType} {d : Code.Decoder},
      r.resolveLayer context nullable type = .ok resolved → Client.ConcreteBase r resolved.base →
      Code.Decoder.ofResolved context' resolved = .ok d → Agrees r P nullable type d v := by
  induction hn : sizeOf v using Nat.strongRecOn generalizing v with
  | ind n ihv =>
      subst hn
      have hsmaller : ∀ u, sizeOf u < sizeOf v → ∀ owner (m : OutputMember),
          m.IsEmitted r owner → Agrees r P true m.field.type m.decoder u := by
        rintro u hu owner m ⟨context, resolved, d, hres, hd, e⟩
        obtain ⟨hlayer, hbase⟩ := Client.resolveConcrete_ok.mp hres
        rw [e]
        exact (ihv (sizeOf u) hu u rfl hlayer hbase hd).member
      intro type
      induction type with
      | nonNull inner ih => exact fun hres hbase hd => (ih hres hbase hd).nonNull
      | list element _ =>
          intro nullable context context' resolved d hres hbase hd
          obtain ⟨inner, hinner, rfl⟩ := Outcome.map_ok.mp hres
          obtain ⟨d', hd', hd⟩ := Outcome.bind_ok.mp hd
          rw [← Outcome.pure_ok.mp hd]
          exact .wrap rfl (.list fun u hu => ihv (sizeOf u) hu u rfl hinner hbase hd')
      | named name =>
          intro nullable context context' resolved d hres hbase hd
          have ht := Registry.resolveLayer_base hres
          simp only [Registry.resolveLayer] at hres
          split at hres
          · cases hres
            obtain ⟨d', hd', hd⟩ := Outcome.bind_ok.mp hd
            rw [← Outcome.pure_ok.mp hd]
            exact .wrap rfl (.named hr hP ht hbase hd' hsmaller)
          · cases hres

end Graphwright.Execution
