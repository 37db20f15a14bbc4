import Graphwright.Proofs.Execution.Services

/-!
# What selection builders record

A selection that is made with the builders of a client is valid for the type that it was made for.
Every call of a method records its field under the name that the schema has for it, with the
arguments that it was given; a later call for the same field takes the place of an earlier one. Where
a method takes another builder, that one has been through such calls itself.
-/
namespace Graphwright.Execution

open Client (SelectionMember SelectionMembers)

/-! ## Calls -/

namespace Program

/-- The selection builder at a path. -/
def builder? (P : Program) (path : String) : Option Code.Class :=
  P.items.findSome? fun item => match item.artifact with
    | .fieldSelection cls => if Rust.itemPath P.home item = path then some cls else none
    | _ => none

end Program

/-- The path of the item that a method takes first. -/
def firstPath? (cls : Code.Class) (method : String) : Option String :=
  match (cls.methods.find? (·.name = method)).map (·.params) with
  | some (param :: _) =>
    match param.type with
    | .named path => some path
    | _ => none
  | _ => none

/-- A call for a field: what is passed for its arguments, and the calls that the builder which is
passed has been through, if there is one. -/
inductive Pick (V : Type)
  | mk (field : Schema.Field) (args : List (Supplied V)) (nested : Option (List (Pick V)))

namespace Pick

variable {V : Type}

def field : Pick V → Schema.Field
  | mk field _ _ => field

def name (p : Pick V) : String := p.field.name

/-- A call that can be written down on the builder of a type: the field is declared there, something
is passed for each of its arguments, and a builder exactly if the type of the field has one. -/
inductive Fits (r : Registry) : RegisteredType → Pick V → Prop
  | plain {t f args} (hf : f ∈ Registry.fieldsOf t.definition.shape)
      (ha : args.map (·.input) = f.arguments) (hs : Client.selected? r f.type = none) :
      Fits r t (mk f args none)
  | nested {t f args t' picks} (hf : f ∈ Registry.fieldsOf t.definition.shape)
      (ha : args.map (·.input) = f.arguments) (hs : Client.selected? r f.type = some t')
      (hn : ∀ p ∈ picks, Fits r t' p) : Fits r t (mk f args (some picks))

end Pick

section Record

variable {m : Type → Type} [Monad m] (P : Program) (H : Host m)

mutual

/-- Makes one call on a builder. -/
def record (path : String) (object : Datum H) : Pick H.Value → OptionT m (Datum H)
  | .mk f args none =>
    match P.builder? path with
    | some cls =>
      invoke H cls 1 ("with_" ++ Client.memberName f.name) (some object) (args.map (·.datum H))
    | none => failure
  | .mk f args (some picks) =>
    match P.builder? path with
    | some cls =>
      match firstPath? cls ("with_" ++ Client.memberName f.name) with
      | some inner => do
        let nested ← recordAll inner (.builder []) picks
        invoke H cls 1 ("with_" ++ Client.memberName f.name) (some object)
          (nested :: args.map (·.datum H))
      | none => failure
    | none => failure

/-- Makes calls on a builder, one after the other. -/
def recordAll (path : String) (object : Datum H) : List (Pick H.Value) → OptionT m (Datum H)
  | [] => return object
  | p :: ps => do recordAll path (← record path object p) ps

end

end Record

/-! ## Valid selections -/

section Valid

variable {m : Type → Type} (r : Registry) (H : Host m)

/-- The arguments of an entry are declared for its field. They are what was passed in the call, all
that is required and of the rest what has a value. -/
structure Supplies (f : Schema.Field) (args : List (Supplied H.Value)) (a : Arguments) : Prop where
  eq : a = sent H args
  nodup : (Entries.names a).Nodup
  declared : ∀ name ∈ Entries.names a, ∃ i ∈ f.arguments, i.name = name
  required : ∀ i ∈ f.arguments, i.isOptional = false → i.name ∈ Entries.names a
  optional : ∀ s ∈ args, s.input.isOptional = true →
    (s.input.name ∈ Entries.names a ↔ s.value.isSome = true)

mutual

/-- The selection is valid for the type, and it holds what the calls say: the fields in the order in
which they were first called for, each as the last call for it has it. -/
inductive Valid : RegisteredType → List (Pick H.Value) → Selection → Prop
  | mk {t picks s} (nodup : (Entries.names s).Nodup)
      (names : Entries.names s = (picks.map (·.name)).eraseDups)
      (last : ∀ before p after field, picks = before ++ p :: after →
        p.name ∉ after.map (·.name) → (p.name, field) ∈ s → ValidEntry t p field) :
      Valid t picks s

/-- The field is declared, and there is a selection for it exactly if its type has fields to
select. -/
inductive ValidEntry : RegisteredType → Pick H.Value → SelectedField → Prop
  | plain {t f args a} (hf : f ∈ Registry.fieldsOf t.definition.shape)
      (ha : Supplies H f args a) (hs : Client.selected? r f.type = none) :
      ValidEntry t (.mk f args none) (.mk a none)
  | nested {t f args a t' picks s} (hf : f ∈ Registry.fieldsOf t.definition.shape)
      (ha : Supplies H f args a) (hs : Client.selected? r f.type = some t')
      (hn : Valid t' picks s) : ValidEntry t (.mk f args (some picks)) (.mk a (some s))

end

end Valid

section

variable {m : Type → Type} {H : Host m} {r : Registry}

theorem supplies_sent {f : Schema.Field} {args : List (Supplied H.Value)}
    (hargs : args.map (·.input) = f.arguments) (hn : (f.arguments.map (·.name)).Nodup) :
    Supplies H f args (sent H args) := by
  have hinputs : ∀ s ∈ args, s.input ∈ f.arguments := fun s hs => hargs ▸ List.mem_map_of_mem hs
  have hnames : (args.map (·.input.name)).Nodup := by
    rw [← hargs, List.map_map] at hn
    exact hn
  refine ⟨rfl, nodup_names_sent hnames, fun name hname => ?_, fun i hi ho => ?_,
    fun s hs ho => ?_⟩
  · obtain ⟨s, hs, e, _⟩ := mem_names_sent.mp hname
    exact ⟨s.input, hinputs s hs, e⟩
  · rw [← hargs] at hi
    obtain ⟨s, hs, rfl⟩ := List.mem_map.mp hi
    exact mem_names_sent.mpr ⟨s, hs, rfl, s.isSome ho⟩
  · rw [mem_names_sent]
    constructor
    · rintro ⟨s', hs', e, hv⟩
      rwa [List.inj_on_of_nodup_map hnames hs' hs e] at hv
    · exact fun hv => ⟨s, hs, rfl, hv⟩

theorem forall₂_split {α β : Type} {R : α → β → Prop} {before after : List α} {a : α}
    {bs : List β} (h : List.Forall₂ R (before ++ a :: after) bs) :
    ∃ bs₁ b bs₂, bs = bs₁ ++ b :: bs₂ ∧ R a b ∧ List.Forall₂ R after bs₂ := by
  induction before generalizing bs with
  | nil =>
      cases h with
      | cons hab hafter => exact ⟨[], _, _, rfl, hab, hafter⟩
  | cons _ before ih =>
      cases h with
      | @cons _ b _ _ _ h =>
          obtain ⟨bs₁, b', bs₂, rfl, hab, hafter⟩ := ih h
          exact ⟨b :: bs₁, b', bs₂, rfl, hab, hafter⟩

/-- An entry is what a call records. -/
def Records (r : Registry) (H : Host m) (t : RegisteredType) (p : Pick H.Value)
    (e : String × SelectedField) : Prop :=
  e.1 = p.name ∧ ValidEntry r H t p e.2

theorem names_of_records {t : RegisteredType} {picks : List (Pick H.Value)}
    {added : List (String × SelectedField)} (h : List.Forall₂ (Records r H t) picks added) :
    Entries.names added = picks.map (·.name) := by
  exact (Outcome.map_eq_of_forall₂ h fun _ _ _ he => he.1.symm).symm

theorem valid_collect {t : RegisteredType} {picks : List (Pick H.Value)}
    {added : List (String × SelectedField)} (h : List.Forall₂ (Records r H t) picks added) :
    Valid r H t picks (Entries.collect added) := by
  have hnodup := Entries.nodup_names_collect added
  refine .mk hnodup (by rw [Entries.names_collect, names_of_records h]) ?_
  rintro before p after field rfl hlast hmem
  obtain ⟨earlier, ⟨name, value⟩, later, rfl, ⟨rfl, hvalid⟩, hlater⟩ := forall₂_split h
  have hget := Entries.get?_eq_of_mem hnodup hmem
  rw [Entries.get?_collect, Entries.last?_append_cons (by rwa [names_of_records hlater])] at hget
  cases hget
  exact hvalid

end

/-! ## Running the methods of a builder -/

section Methods

variable {r : Registry} {t : RegisteredType} {ms : List SelectionMember}

theorem find?_selectionMethod (h : SelectionMembers r t ms) {member : SelectionMember}
    (hm : member ∈ ms) {name : String} (hname : member.method.name = name) :
    (Client.builderClass ms).methods.find? (·.name = name) = some member.method := by
  have hnames : ((Client.builderClass ms).methods.map (·.name)).Nodup := by
    rw [Client.builderClass, List.map_map]
    exact h.methods
  exact Entries.find?_of_nodup hnames (List.mem_map_of_mem hm) hname

theorem find?_selectionConstant (h : SelectionMembers r t ms) {member : SelectionMember}
    (hm : member ∈ ms) {name : String} (hname : member.constant.name = name) :
    (Client.builderClass ms).constants.find? (·.name = name) = some member.constant := by
  have hnames : ((Client.builderClass ms).constants.map (·.name)).Nodup := by
    rw [Client.builderClass, List.map_map]
    exact h.constants
  exact Entries.find?_of_nodup hnames (List.mem_map_of_mem hm) hname

theorem outcome_select {m : Type → Type} [Monad m] [LawfulMonad m] {H : Host m} {c : Context H}
    {frame : Frame H} {s : Selection} {constant field : String} {map : Code.Expr}
    {builder : Option String} {a : Arguments} {nested : Option Selection}
    (hself : frame.self? = some (.builder s))
    (hconstant : c.constants.find? (·.name = constant) = some ⟨constant, field⟩)
    (hmap : c.expr frame map = pure (.arguments a))
    (hnested : frame.nested builder = (pure nested : Eval H _)) :
    outcome (c.stmts frame [
        .select (.field .self Code.selectionStore) (.constant constant) map builder,
        .return .self])
      = pure (.builder (s.select field a nested)) := by
  simp [Context.stmts, Context.stmt, Context.expr, hself, hconstant, hmap, hnested, Frame.update?,
    Datum.builder, Datum.select?]

theorem exists_selectionMethod {home : Namespace} (hr : r.WellFormed home)
    (h : SelectionMembers r t ms) {f : Schema.Field}
    (hf : f ∈ Registry.fieldsOf t.definition.shape) :
    ∃ method, (Client.builderClass ms).methods.find?
        (·.name = "with_" ++ Client.memberName f.name) = some method ∧
      Signature r f method.params ∧ (f.arguments.map (·.name)).Nodup ∧
      ∀ {m : Type → Type} [Monad m] [LawfulMonad m] (H : Host m) (depth : Nat) (s : Selection)
        (args : List (Supplied H.Value)) (nested : Option Selection),
        args.map (·.input) = f.arguments →
        nested.isSome = (Client.selected? r f.type).isSome →
        invoke H (Client.builderClass ms) (depth + 1) ("with_" ++ Client.memberName f.name)
            (some (.builder s)) ((nested.map .builder).toList ++ args.map (·.datum H))
          = pure (.builder (s.select f.name (sent H args) nested)) := by
  obtain ⟨member, hm, context, resolved, as, hres, hplanned, rfl⟩ :=
    Outcome.mem_of_forall₂' h.for_fields f hf
  have hfind : (Client.builderClass ms).methods.find?
      (·.name = "with_" ++ Client.memberName f.name) = some _ := find?_selectionMethod h hm rfl
  have hconstant : (Client.builderClass ms).constants.find? (·.name = Text.shoutyCase f.name)
      = some ⟨Text.shoutyCase f.name, f.name⟩ := find?_selectionConstant h hm rfl
  refine ⟨_, hfind, signature_of_planned hr hres hplanned, hplanned.nodup_inputs, ?_⟩
  intro m _ _ H depth s args nested hargs hnested
  have hbuilder : nested.isSome
      = ((Client.selectedObject? resolved).map r.home.selectionPath).isSome := by
    rw [hnested, Client.selectedObject?_eq hr hres]
    simp
  obtain ⟨frame, hself, hmap, hbuilder, hinvoke⟩ := invoke_planned hplanned (by decide) (by decide)
    hargs hbuilder hfind (by simp [Client.selectionMember]) rfl rfl depth (.builder s)
  exact hinvoke.trans (outcome_select hself hconstant hmap hbuilder)

end Methods

/-! ## The builders of a client -/

/-- The builder of every type with fields to select is found at its path. -/
def HasBuilders (P : Program) (r : Registry) : Prop :=
  ∀ t ∈ Client.selectable r, ∃ ms, SelectionMembers r t ms ∧
    P.builder? (r.home.selectionPath t.name) = some (Client.builderClass ms)

theorem hasBuilders_of_models {r : Registry} {ms : List Code.Model}
    (h : Client.models r = .ok ms)
    (hfiles : ∀ m ∈ ms, ∀ m' ∈ ms, Rust.itemFilePath m = Rust.itemFilePath m' → m = m') :
    HasBuilders ⟨r.home, ms⟩ r := by
  intro t ht
  obtain ⟨b, hb, hemit⟩ := Client.exists_item h .selectionBuilder ht
  obtain ⟨members, hmembers, hartifact, hfolder⟩ := Client.selectionBuilder_members hemit
  obtain ⟨⟨_, _, hpath⟩, _⟩ := Client.selectionBuilder_ok hemit
  refine ⟨members, hmembers, findSome?_of_unique hb (by simp [hartifact, hpath]) ?_⟩
  intro b' hb' cls hf
  split at hf
  · rename_i hartifact'
    split at hf
    · rename_i hpath'
      obtain ⟨part, hemits⟩ := (Client.mem_models h).mp hb'
      obtain ⟨t', _, hemit'⟩ := hemits.exists_selectionBuilder hartifact'
      obtain ⟨_, _, _, hfolder'⟩ := Client.selectionBuilder_members hemit'
      rw [← hpath, Rust.itemPath, Rust.itemPath, hfolder, hfolder'] at hpath'
      have hname : b'.name = b.name := by simpa using hpath'
      exact hfiles b' hb' b hb
        (by rw [Rust.itemFilePath, Rust.itemFilePath, hfolder, hfolder', hname])
    · cases hf
  · cases hf

section Recorded

variable {m : Type → Type} [Monad m] [LawfulMonad m] {H : Host m} {home : Namespace} {r : Registry}
  {P : Program}

/-- A call is recorded on a builder, whatever that holds. -/
def Recorded (P : Program) (r : Registry) (H : Host m) (t : RegisteredType)
    (p : Pick H.Value) : Prop :=
  ∃ field, ValidEntry r H t p field ∧ ∀ s : Selection,
    record P H (r.home.selectionPath t.name) (.builder s) p
      = pure (.builder (Entries.put p.name field s))

theorem recordAll_of_recorded {t : RegisteredType} {picks : List (Pick H.Value)}
    (h : ∀ p ∈ picks, Recorded P r H t p) :
    ∃ s, recordAll P H (r.home.selectionPath t.name) (.builder []) picks = pure (.builder s) ∧
      Valid r H t picks s := by
  -- For any selection to start with, since each call finds what the ones before it have recorded.
  have hrun : ∀ s : Selection, ∃ added : List (String × SelectedField),
      List.Forall₂ (Records r H t) picks added ∧
      recordAll P H (r.home.selectionPath t.name) (.builder s) picks
        = pure (.builder (added.foldl (fun acc e => Entries.put e.1 e.2 acc) s)) := by
    induction picks with
    | nil => exact fun s => ⟨[], .nil, by rw [recordAll]; rfl⟩
    | cons p picks ih =>
        intro s
        obtain ⟨field, hvalid, hrecord⟩ := h p List.mem_cons_self
        obtain ⟨added, hadded, hrest⟩ := ih (fun p hp => h p (List.mem_cons_of_mem _ hp))
          (Entries.put p.name field s)
        exact ⟨(p.name, field) :: added, .cons ⟨rfl, hvalid⟩ hadded, by
          rw [recordAll, hrecord, pure_bind, hrest, List.foldl_cons]⟩
  obtain ⟨added, hadded, hrun⟩ := hrun []
  exact ⟨Entries.collect added, hrun, valid_collect hadded⟩

/-- Every call that can be written down is recorded. -/
theorem recorded_of_fits (hr : r.WellFormed home) (hP : HasBuilders P r) {t : RegisteredType}
    {p : Pick H.Value} (ht : t ∈ Client.selectable r) (h : p.Fits r t) : Recorded P r H t p := by
  -- On the nesting of calls: the builder that a method takes has recorded its own calls before.
  induction h with
  | @plain t f args hf hargs hs =>
      obtain ⟨ms, hms, hcls⟩ := hP t ht
      obtain ⟨method, _, _, hn, hinvoke⟩ := exists_selectionMethod hr hms hf
      refine ⟨_, .plain hf (supplies_sent hargs hn) hs, fun s => ?_⟩
      have hcall := hinvoke H 0 s args none hargs (by rw [hs]; rfl)
      simp only [record, hcls]
      exact hcall
  | @nested t f args t' picks hf hargs hs _ ih =>
      obtain ⟨ms, hms, hcls⟩ := hP t ht
      obtain ⟨method, hfind, ⟨rest, _, hparams⟩, hn, hinvoke⟩ := exists_selectionMethod hr hms hf
      have ht' : t' ∈ Client.selectable r := ((Client.selected?_eq_some hr).mp hs).1
      obtain ⟨nested, hnested, hvalid⟩ := recordAll_of_recorded fun p hp => ih p hp ht'
      refine ⟨_, .nested hf (supplies_sent hargs hn) hs hvalid, fun s => ?_⟩
      have hfirst : firstPath? (Client.builderClass ms) ("with_" ++ Client.memberName f.name)
          = some (r.home.selectionPath t'.name) := by
        rw [firstPath?, hfind, Option.map_some, hparams, hs]
        rfl
      have hcall := hinvoke H 0 s args (some nested) hargs (by rw [hs]; rfl)
      simp only [record, hcls, hfirst, hnested, pure_bind]
      exact hcall

end Recorded

/-- The builder of a type has one method per field, and whatever its methods are given, what they
record is valid for the type. -/
structure Builds (P : Program) (r : Registry) (t : RegisteredType) : Prop where
  methods : ∃ cls, P.builder? (r.home.selectionPath t.name) = some cls ∧
    List.Forall₂ (fun method f => method.name = "with_" ++ Client.memberName f.name ∧
      Signature r f method.params) cls.methods (Registry.fieldsOf t.definition.shape)
  records : ∀ {m : Type → Type} [Monad m] [LawfulMonad m] (H : Host m)
    (picks : List (Pick H.Value)), (∀ p ∈ picks, p.Fits r t) →
    ∃ s, recordAll P H (r.home.selectionPath t.name) (.builder []) picks = pure (.builder s) ∧
      Valid r H t picks s

theorem builds_of_hasBuilders {home : Namespace} {P : Program} {r : Registry}
    (hr : r.WellFormed home) (hP : HasBuilders P r) {t : RegisteredType}
    (ht : t ∈ Client.selectable r) : Builds P r t where
  methods := by
    obtain ⟨ms, hms, hcls⟩ := hP t ht
    refine ⟨_, hcls, ?_⟩
    rw [Client.builderClass, List.forall₂_map_left_iff]
    refine hms.for_fields.imp fun member f hfor => ?_
    obtain ⟨context, resolved, as, hres, hplanned, rfl⟩ := hfor
    exact ⟨rfl, signature_of_planned hr hres hplanned⟩
  records H picks hfits :=
    recordAll_of_recorded fun p hp => recorded_of_fits hr hP ht (hfits p hp)

/-- For every schema that a client is generated for, selections that are made with its builders are
valid. -/
theorem selections_valid {options : Options} {text : String} {files : List GeneratedFile}
    {warnings : List Warning} (h : generate options text = .ok (files, warnings)) :
    ∃ r ms, registryOfText options.home options.substitutions text = .ok (r, warnings) ∧
      Client.models r = .ok ms ∧
      ∀ t ∈ Client.selectable r, Builds ⟨options.home, ms⟩ r t := by
  obtain ⟨r, ms, hr, hms, hfiles⟩ := generate_ok h
  obtain ⟨document, _, found, _, hbuild⟩ := registryOfText_ok hr
  have hw := Registry.wellFormed_of_build hbuild
  have hP := hasBuilders_of_models hms hfiles
  rw [hw.home_eq] at hP
  exact ⟨r, ms, hr, hms, fun t ht => builds_of_hasBuilders hw hP ht⟩

theorem selections_valid_people : ∃ files warnings r ms,
    generate .standard people = .ok (files, warnings) ∧
    registryOfText .default [] people = .ok (r, warnings) ∧ Client.models r = .ok ms ∧
    ∃ t ∈ Client.selectable r, (∃ f ∈ Registry.fieldsOf t.definition.shape,
      (Client.selected? r f.type).map (·.name) = some t.name) ∧ Builds ⟨.default, ms⟩ r t := by
  obtain ⟨⟨files, warnings⟩, h⟩ := peopleClient
  obtain ⟨r, ms, hr, hms, hbuilds⟩ := selections_valid h
  have htest : ∃ out, registryOfText .default [] people = .ok out ∧
      ((Client.selectable out.1).any fun t => (Registry.fieldsOf t.definition.shape).any fun f =>
        (Client.selected? out.1 f.type).map (·.name) = some t.name) = true :=
    Outcome.any_eq_true.mp (by decide +kernel)
  obtain ⟨out, hout, htest⟩ := htest
  cases hr.symm.trans hout
  obtain ⟨t, ht, hfields⟩ := List.any_eq_true.mp htest
  obtain ⟨f, hf, hself⟩ := List.any_eq_true.mp hfields
  exact ⟨files, warnings, r, ms, h, hr, hms, t, ht, ⟨f, hf, by simpa using hself⟩, hbuilds t ht⟩

end Graphwright.Execution
