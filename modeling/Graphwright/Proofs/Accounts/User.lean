import Graphwright.Accounts.User
import Graphwright.Proofs.Outcome

/-!
# Accounts as a response tells them

An account is read field by field in the order of declaration, and its manager where the manager
field stands. So it cannot be read exactly if a value under a declared field has the wrong shape,
and the first such value makes the error. Otherwise the getters give what the response says, and no
other key has any bearing on them.
-/
namespace Graphwright.Accounts.User

/-! ## Declared fields -/

inductive Field
  | id | name | role | tags | manager
  deriving DecidableEq, Repr

namespace Field

def key : Field → String
  | id => "id"
  | name => "name"
  | role => "role"
  | tags => "tags"
  | manager => "manager"

/-- The fields that come before the manager, in order of declaration. -/
def own : List Field := [id, name, role, tags]

end Field

/-- What is wrong with a value under a field. A manager that is an object is not wrong itself, its
own fields are looked at in turn. -/
inductive Wrong : Field → Json → ClientError → Prop
  | id {v} (h : ∀ s, v ≠ .string s) : Wrong .id v (.unexpectedValue .text (.ofJson v))
  | name {v} (hnull : v ≠ .null) (h : ∀ s, v ≠ .string s) :
      Wrong .name v (.unexpectedValue .text (.ofJson v))
  | role {v} (h : ∀ s, v ≠ .string s) : Wrong .role v (.unexpectedValue .enumeration (.ofJson v))
  | unknownRole {s} (h : ∀ role : Role, WireEnum.text role ≠ s) :
      Wrong .role (.string s) (.unknownEnumValue "Role" s)
  | tags {v} (h : ∀ vs, v ≠ .array vs) : Wrong .tags v (.unexpectedValue .list (.ofJson v))
  | tag {before : List String} {v after} (h : ∀ s, v ≠ .string s) :
      Wrong .tags (.array (before.map .string ++ v :: after)) (.unexpectedValue .text (.ofJson v))
  | manager {v} (hnull : v ≠ .null) (h : ∀ ms, v ≠ .object ms) :
      Wrong .manager v (.unexpectedValue .object (.ofJson v))

section

variable {v : Json} {e : ClientError}

theorem wrong_id : Wrong .id v e ↔
    (∀ s, v ≠ .string s) ∧ e = .unexpectedValue .text (.ofJson v) :=
  ⟨fun h => by cases h; exact ⟨‹_›, rfl⟩, fun ⟨h, he⟩ => he ▸ .id h⟩

theorem wrong_name : Wrong .name v e ↔
    v ≠ .null ∧ (∀ s, v ≠ .string s) ∧ e = .unexpectedValue .text (.ofJson v) :=
  ⟨fun h => by cases h; exact ⟨‹_›, ‹_›, rfl⟩, fun ⟨hnull, h, he⟩ => he ▸ .name hnull h⟩

theorem wrong_manager : Wrong .manager v e ↔
    v ≠ .null ∧ (∀ ms, v ≠ .object ms) ∧ e = .unexpectedValue .object (.ofJson v) :=
  ⟨fun h => by cases h; exact ⟨‹_›, ‹_›, rfl⟩, fun ⟨hnull, h, he⟩ => he ▸ .manager hnull h⟩

end

theorem sizeOf_inner {key : String} {members inner : List (String × Json)}
    (h : Entries.get? key members = some (.object inner)) : sizeOf inner < sizeOf members := by
  have hvalue := sizeOf_get? h
  simp only [Json.object.sizeOf_spec] at hvalue
  omega

/-- The values that an object has under some of the fields. -/
def valuesUnder (fields : List Field) (members : List (String × Json)) : List (Field × Json) :=
  fields.filterMap fun f => (Entries.get? f.key members).map (f, ·)

/-- The values under the declared fields of an account, in the order of declaration. Behind the
value of the manager field stand those under the manager's own fields. -/
def fieldValues (members : List (String × Json)) : List (Field × Json) :=
  valuesUnder Field.own members ++
    match _h : Entries.get? "manager" members with
    | none => []
    | some (.object inner) => (.manager, .object inner) :: fieldValues inner
    | some value => [(.manager, value)]
  termination_by sizeOf members
  decreasing_by exact sizeOf_inner _h

/-- The first of the values that is wrong makes the error. -/
def FirstWrong (values : List (Field × Json)) (e : ClientError) : Prop :=
  ∃ before field value after, values = before ++ (field, value) :: after ∧ Wrong field value e ∧
    ∀ b ∈ before, ∀ e', ¬ Wrong b.1 b.2 e'

section

variable {f : Field} {v : Json} {values : List (Field × Json)} {e : ClientError}

theorem not_firstWrong_nil : ¬ FirstWrong [] e := by
  rintro ⟨before, _, _, _, h, _⟩
  cases before <;> cases h

theorem firstWrong_cons : FirstWrong ((f, v) :: values) e ↔
    Wrong f v e ∨ (∀ e', ¬ Wrong f v e') ∧ FirstWrong values e := by
  constructor
  · rintro ⟨before, field, value, after, h, hwrong, hbefore⟩
    cases before with
    | nil =>
        cases h
        exact .inl hwrong
    | cons b before =>
        cases h
        exact .inr ⟨hbefore _ List.mem_cons_self, before, field, value, after, rfl, hwrong,
          fun b hb => hbefore b (List.mem_cons_of_mem _ hb)⟩
  · rintro (hwrong | ⟨hfirst, before, field, value, after, rfl, hwrong, hbefore⟩)
    · exact ⟨[], f, v, values, rfl, hwrong, List.forall_mem_nil _⟩
    · exact ⟨(f, v) :: before, field, value, after, rfl, hwrong,
        List.forall_mem_cons.mpr ⟨hfirst, hbefore⟩⟩

theorem exists_firstWrong_iff : (∃ e, FirstWrong values e) ↔
    ∃ f v e, (f, v) ∈ values ∧ Wrong f v e := by
  constructor
  · rintro ⟨e, before, f, v, after, rfl, hwrong, _⟩
    exact ⟨f, v, e, List.mem_append_right _ List.mem_cons_self, hwrong⟩
  · rintro ⟨f, v, e, hmem, hwrong⟩
    induction values with
    | nil => cases hmem
    | cons b values ih =>
        obtain ⟨g, w⟩ := b
        by_cases hfirst : ∃ e', Wrong g w e'
        · obtain ⟨e', hfirst⟩ := hfirst
          exact ⟨e', firstWrong_cons.mpr (.inl hfirst)⟩
        · have hright : ∀ e', ¬ Wrong g w e' := fun e' h => hfirst ⟨e', h⟩
          obtain ⟨e', he'⟩ := ih ((List.mem_cons.mp hmem).resolve_left
            fun h => by cases h; exact hright e hwrong)
          exact ⟨e', firstWrong_cons.mpr (.inr ⟨hright, he'⟩)⟩

end

/-! ## Values -/

section

variable {v : Json} {e : ClientError}

theorem text_ok {s : String} : Response.text v = .ok s ↔ v = .string s := by
  cases v <;> simp [Response.text, Response.unexpected]

theorem text_error : Response.text v = .error e ↔
    (∀ s, v ≠ .string s) ∧ e = .unexpectedValue .text (.ofJson v) := by
  cases v <;> simp [Response.text, Response.unexpected, eq_comm]

theorem nullable_text_ok {name : Option String} :
    Response.nullable Response.text v = .ok name ↔ v = name.elim .null .string := by
  cases v <;> cases name <;> simp [Response.nullable, Response.text, Response.unexpected]

theorem nullable_text_error : Response.nullable Response.text v = .error e ↔
    v ≠ .null ∧ (∀ s, v ≠ .string s) ∧ e = .unexpectedValue .text (.ofJson v) := by
  cases v <;> simp [Response.nullable, Response.text, Response.unexpected, eq_comm]

theorem ofText?_eq_some {s : String} {role : Role} :
    WireEnum.ofText? s = some role ↔ s = WireEnum.text role := by
  constructor
  · intro h
    simpa [eq_comm] using List.find?_some h
  · rintro rfl
    cases role <;> decide

theorem ofText?_eq_none {s : String} :
    (WireEnum.ofText? s : Option Role) = none ↔ ∀ role : Role, WireEnum.text role ≠ s := by
  rw [Option.eq_none_iff_forall_ne_some]
  exact forall_congr' fun role => not_congr (ofText?_eq_some.trans eq_comm)

theorem enumeration_ok {role : Role} :
    Response.enumeration v = .ok role ↔ v = .string (WireEnum.text role) := by
  cases v with
  | string s =>
      rw [Json.string.injEq, ← ofText?_eq_some]
      cases h : (WireEnum.ofText? s : Option Role) <;> simp [Response.enumeration, h]
  | _ => simp [Response.enumeration, Response.unexpected]

theorem enumeration_error :
    (Response.enumeration v : Except ClientError Role) = .error e ↔ Wrong .role v e := by
  cases v with
  | string s =>
      cases h : (WireEnum.ofText? s : Option Role) with
      | none =>
          simp only [Response.enumeration, h, Except.error.injEq]
          constructor
          · rintro rfl
            exact .unknownRole (ofText?_eq_none.mp h)
          · intro hwrong
            cases hwrong with
            | role hs => exact absurd rfl (hs s)
            | unknownRole _ => rfl
      | some role =>
          simp only [Response.enumeration, h, reduceCtorEq, false_iff]
          intro hwrong
          cases hwrong with
          | role hs => exact hs s rfl
          | unknownRole hs => exact hs role (ofText?_eq_some.mp h).symm
  | _ =>
      simp only [Response.enumeration, Response.unexpected, Except.error.injEq]
      constructor
      · rintro rfl
        exact .role nofun
      · rintro ⟨⟩
        rfl

theorem mapM_text_error {vs : List Json} : vs.mapM Response.text = .error e ↔
    ∃ (before : List String) (v : Json) (after : List Json), vs = before.map .string ++ v :: after ∧
      (∀ s, v ≠ .string s) ∧ e = .unexpectedValue .text (.ofJson v) := by
  induction vs with
  | nil => simp [pure, Except.pure]
  | cons u vs ih =>
      rw [List.mapM_cons, Outcome.bind_error, text_error]
      constructor
      · rintro (⟨hu, rfl⟩ | ⟨s, hs, h⟩)
        · exact ⟨[], u, vs, rfl, hu, rfl⟩
        · rw [text_ok] at hs
          obtain h | ⟨_, _, h⟩ := Outcome.bind_error.mp h
          · obtain ⟨before, v, after, rfl, hv, he⟩ := ih.mp h
            exact ⟨s :: before, v, after, by rw [hs]; rfl, hv, he⟩
          · cases h
      · rintro ⟨before, v, after, h, hv, he⟩
        cases before with
        | nil =>
            cases h
            exact .inl ⟨hv, he⟩
        | cons s before =>
            cases h
            have hrest := ih.mpr ⟨before, v, after, rfl, hv, he⟩
            exact .inr ⟨s, rfl, Outcome.bind_error.mpr (.inl hrest)⟩

theorem list_text_ok {tags : List String} :
    Response.list Response.text v = .ok tags ↔ v = .array (tags.map .string) := by
  cases v with
  | array vs =>
      rw [Json.array.injEq, Response.list, Outcome.mapM_ok]
      simp only [text_ok]
      constructor
      · intro h
        induction h with
        | nil => rfl
        | cons hv _ ih => rw [hv, ih, List.map_cons]
      · rintro rfl
        exact List.forall₂_map_left_iff.mpr (List.forall₂_same.mpr fun _ _ => rfl)
  | _ => simp [Response.list, Response.unexpected]

theorem list_text_error : Response.list Response.text v = .error e ↔ Wrong .tags v e := by
  cases v with
  | array vs =>
      rw [Response.list, mapM_text_error]
      constructor
      · rintro ⟨before, v, after, rfl, hv, rfl⟩
        exact .tag hv
      · intro hwrong
        cases hwrong with
        | tags hvs => exact absurd rfl (hvs vs)
        | tag hv => exact ⟨_, _, _, rfl, hv, rfl⟩
  | _ =>
      simp only [Response.list, Response.unexpected, Except.error.injEq]
      constructor
      · rintro rfl
        exact .tags nofun
      · rintro ⟨⟩
        rfl

end

/-! ## Fields -/

section

variable {α β : Type} {members members' : List (String × Json)} {key : String}
  {decode : Response.Decoder α} {e : ClientError}

theorem field_ok {slot : Slot α} : Response.field members key decode = .ok slot ↔
    (Entries.get? key members = none ∧ slot = .unset) ∨
      ∃ v a, Entries.get? key members = some v ∧ decode v = .ok a ∧ slot = .set a := by
  unfold Response.field
  cases Entries.get? key members with
  | none => simp [eq_comm]
  | some v =>
      dsimp only
      rw [Outcome.map_ok]
      simp [eq_comm]

theorem field_error : Response.field members key decode = .error e ↔
    ∃ v, Entries.get? key members = some v ∧ decode v = .error e := by
  unfold Response.field
  cases Entries.get? key members with
  | none => simp
  | some v => simp [Outcome.map_error]

theorem field_congr (h : Entries.get? key members = Entries.get? key members') :
    Response.field members key decode = Response.field members' key decode := by
  rw [Response.field, h, Response.field]

/-- A field is read before what comes behind it, whatever has been read. -/
theorem bind_field_error {f : Field} {fields : List Field} {values : List (Field × Json)}
    {k : Slot α → Except ClientError β} (hdecode : ∀ v e, decode v = .error e ↔ Wrong f v e)
    (hk : ∀ slot e, k slot = .error e ↔ FirstWrong (valuesUnder fields members ++ values) e) :
    Response.field members f.key decode >>= k = .error e ↔
      FirstWrong (valuesUnder (f :: fields) members ++ values) e := by
  rw [Outcome.bind_error, field_error]
  cases hget : Entries.get? f.key members with
  | none =>
      have hvalues : valuesUnder (f :: fields) members = valuesUnder fields members := by
        simp [valuesUnder, hget]
      have hread : Response.field members f.key decode = .ok .unset :=
        field_ok.mpr (.inl ⟨hget, rfl⟩)
      simp [hvalues, hread, hk]
  | some v =>
      have hvalues : valuesUnder (f :: fields) members = (f, v) :: valuesUnder fields members := by
        simp [valuesUnder, hget]
      have hread : (∃ slot, Response.field members f.key decode = .ok slot) ↔
          ∀ e', ¬ Wrong f v e' := by
        simp only [← hdecode, Response.field, hget]
        cases decode v <;> simp [Functor.map, Except.map]
      rw [hvalues, List.cons_append, firstWrong_cons, ← hread]
      simp only [Option.some.injEq, exists_eq_left', hdecode, hk, exists_and_right]

end

/-! ## Errors -/

/-- What stands behind the fields of an account's own: its manager's. -/
def managerValues (members : List (String × Json)) : List (Field × Json) :=
  match Entries.get? "manager" members with
  | none => []
  | some (.object inner) => (.manager, .object inner) :: fieldValues inner
  | some value => [(.manager, value)]

theorem fieldValues_eq (members : List (String × Json)) :
    fieldValues members = valuesUnder Field.own members ++ managerValues members := by
  rw [fieldValues, managerValues]
  congr 1
  split <;> simp_all

theorem manager_error {members : List (String × Json)}
    (ih : ∀ inner, Entries.get? "manager" members = some (.object inner) →
      ∀ e, ofMembers inner = .error e ↔ FirstWrong (fieldValues inner) e) (e : ClientError) :
    Response.field members "manager" (Response.nullable decode) = .error e ↔
      FirstWrong (managerValues members) e := by
  rw [field_error, managerValues]
  cases hget : Entries.get? "manager" members with
  | none => simp [not_firstWrong_nil]
  | some v =>
      simp only [Option.some.injEq, exists_eq_left']
      cases v with
      | object inner =>
          simp only [Response.nullable, decode, Response.object, Outcome.map_error,
            firstWrong_cons, wrong_manager, ih inner hget]
          simp
      | _ =>
          simp [Response.nullable, decode, Response.object, Response.unexpected, Functor.map,
            Except.map, firstWrong_cons, not_firstWrong_nil, wrong_manager, eq_comm]

/-- The first value of the wrong shape makes the error. -/
theorem ofMembers_error (members : List (String × Json)) (e : ClientError) :
    ofMembers members = .error e ↔ FirstWrong (fieldValues members) e := by
  have hmanager : ∀ e, Response.field members "manager" (Response.nullable decode) = .error e ↔
      FirstWrong (managerValues members) e :=
    manager_error fun inner hget e => ofMembers_error inner e
  rw [ofMembers_eq, fieldValues_eq]
  refine bind_field_error (f := .id) (fun v e => text_error.trans wrong_id.symm) fun id e =>
    bind_field_error (f := .name) (fun v e => nullable_text_error.trans wrong_name.symm)
      fun name e =>
        bind_field_error (f := .role) (fun v e => enumeration_error) fun role e =>
          bind_field_error (f := .tags) (fun v e => list_text_error) fun tags e => ?_
  rw [Outcome.bind_error, hmanager]
  exact or_iff_left fun ⟨_, _, h⟩ => nomatch h
  termination_by sizeOf members
  decreasing_by exact sizeOf_inner hget

/-! ## Getters -/

/-- What a getter gives for a key: that the field was not read if the key is missing, and otherwise
what its value says. -/
inductive Given {α : Type} (members : List (String × Json)) (key : String)
    (Says : Json → α → Prop) : Except ClientError α → Prop
  | absent (h : Entries.get? key members = none) :
      Given members key Says (.error (.unhydrated key))
  | present {v a} (h : Entries.get? key members = some v) (hv : Says v a) :
      Given members key Says (.ok a)

/-- The getters of all fields but the manager give what an object says. -/
structure GivesOwn (members : List (String × Json)) (user : User) : Prop where
  id : Given members "id" (fun v id => v = .string id) user.getId
  name : Given members "name" (fun v name => v = name.elim .null .string) user.getName
  role : Given members "role" (fun v role => v = .string (WireEnum.text role)) user.getRole
  tags : Given members "tags" (fun v tags => v = .array (tags.map .string)) user.getTags

/-- The getters give what an object says, those of a manager what the object of the manager says. -/
inductive Gives : List (String × Json) → User → Prop
  | unset {members user} (own : GivesOwn members user)
      (h : Entries.get? "manager" members = none)
      (hmanager : user.getManager = .error (.unhydrated "manager")) : Gives members user
  | null {members user} (own : GivesOwn members user)
      (h : Entries.get? "manager" members = some .null)
      (hmanager : user.getManager = .ok none) : Gives members user
  | object {members inner user manager} (own : GivesOwn members user)
      (h : Entries.get? "manager" members = some (.object inner))
      (hmanager : user.getManager = .ok (some manager)) (hinner : Gives inner manager) :
      Gives members user

theorem given_of_field {α : Type} {members : List (String × Json)} {key : String}
    {decode : Response.Decoder α} {Says : Json → α → Prop} {slot : Slot α}
    (hdecode : ∀ {v a}, decode v = .ok a ↔ Says v a)
    (h : Response.field members key decode = .ok slot) : Given members key Says (slot.get key) := by
  obtain ⟨hget, rfl⟩ | ⟨v, a, hget, hv, rfl⟩ := field_ok.mp h
  · exact .absent hget
  · exact .present hget (hdecode.mp hv)

/-- An account that has been read gives what the response says. -/
theorem gives_of_ofMembers {members : List (String × Json)} {user : User}
    (h : ofMembers members = .ok user) : Gives members user := by
  rw [ofMembers_eq] at h
  obtain ⟨id, hid, h⟩ := Outcome.bind_ok.mp h
  obtain ⟨name, hname, h⟩ := Outcome.bind_ok.mp h
  obtain ⟨role, hrole, h⟩ := Outcome.bind_ok.mp h
  obtain ⟨tags, htags, h⟩ := Outcome.bind_ok.mp h
  obtain ⟨manager, hmanager, h⟩ := Outcome.bind_ok.mp h
  cases h
  have hown : GivesOwn members ⟨id, name, role, tags, manager⟩ :=
    ⟨given_of_field text_ok hid, given_of_field nullable_text_ok hname,
      given_of_field enumeration_ok hrole, given_of_field list_text_ok htags⟩
  obtain ⟨hget, rfl⟩ | ⟨v, above, hget, hv, rfl⟩ := field_ok.mp hmanager
  · exact .unset hown hget rfl
  · cases v with
    | null =>
        cases hv
        exact .null hown hget rfl
    | object inner =>
        obtain ⟨superior, hinner, rfl⟩ := Outcome.map_ok.mp hv
        exact .object hown hget rfl (gives_of_ofMembers hinner)
    | _ => cases hv
  termination_by sizeOf members
  decreasing_by exact sizeOf_inner hget

/-! ## Other keys -/

/-- Two objects have the same values under the declared fields, and so have those of their managers
in turn. Whatever else they hold may differ. -/
inductive Alike : List (String × Json) → List (String × Json) → Prop
  | same {members members'}
      (own : ∀ f ∈ Field.own, Entries.get? f.key members = Entries.get? f.key members')
      (manager : Entries.get? "manager" members = Entries.get? "manager" members') :
      Alike members members'
  | manager {members members' inner inner'}
      (own : ∀ f ∈ Field.own, Entries.get? f.key members = Entries.get? f.key members')
      (h : Entries.get? "manager" members = some (.object inner))
      (h' : Entries.get? "manager" members' = some (.object inner')) (hinner : Alike inner inner') :
      Alike members members'

theorem get?_insert {key name : String} {value : Json} (before after : List (String × Json))
    (h : key ≠ name) : Entries.get? name (before ++ (key, value) :: after) =
      Entries.get? name (before ++ after) := by
  induction before with
  | nil => simp [Entries.get?, h]
  | cons m before ih =>
      obtain ⟨k, v⟩ := m
      simp [Entries.get?, ih]

/-- A member under a key that is not declared makes no difference. -/
theorem alike_insert {key : String} {value : Json} (before after : List (String × Json))
    (h : ∀ f : Field, key ≠ f.key) : Alike (before ++ after) (before ++ (key, value) :: after) :=
  .same (fun f _ => (get?_insert before after (h f)).symm)
    (get?_insert before after (h .manager)).symm

theorem ofMembers_congr {members members' : List (String × Json)}
    (own : ∀ f ∈ Field.own, Entries.get? f.key members = Entries.get? f.key members')
    (hmanager : Response.field members "manager" (Response.nullable decode) =
      Response.field members' "manager" (Response.nullable decode)) :
    ofMembers members = ofMembers members' := by
  have hid : Entries.get? "id" members = Entries.get? "id" members' := own .id (by decide)
  have hname : Entries.get? "name" members = Entries.get? "name" members' := own .name (by decide)
  have hrole : Entries.get? "role" members = Entries.get? "role" members' := own .role (by decide)
  have htags : Entries.get? "tags" members = Entries.get? "tags" members' := own .tags (by decide)
  rw [ofMembers_eq, ofMembers_eq, hmanager, field_congr hid, field_congr hname, field_congr hrole,
    field_congr htags]

theorem Alike.ofMembers_eq {members members' : List (String × Json)} (h : Alike members members') :
    ofMembers members = ofMembers members' := by
  induction h with
  | same own manager => exact ofMembers_congr own (field_congr manager)
  | manager own h h' _ ih =>
      refine ofMembers_congr own ?_
      simp only [Response.field, h, h', Response.nullable, decode, Response.object, ih]

/-! ## Accounts -/

/-- An account cannot be read exactly if a value under one of its declared fields, or of those of
its managers, has the wrong shape, and the first such value makes the error. Otherwise each getter
gives what the object says, and members under other keys make no difference. -/
theorem ofMembers_reads (members : List (String × Json)) :
    (∀ e, ofMembers members = .error e ↔ FirstWrong (fieldValues members) e) ∧
      ((∃ e, ofMembers members = .error e) ↔
        ∃ f v e, (f, v) ∈ fieldValues members ∧ Wrong f v e) ∧
      (∀ user, ofMembers members = .ok user → Gives members user) ∧
      ∀ members', Alike members members' → ofMembers members' = ofMembers members := by
  refine ⟨ofMembers_error members, ?_, fun user => gives_of_ofMembers,
    fun members' h => h.ofMembers_eq.symm⟩
  rw [← exists_firstWrong_iff]
  exact exists_congr (ofMembers_error members)

/-- An account with a manager, of whom less is known. -/
def promoted (above : Json) (role : String) (others : List (String × Json)) :
    List (String × Json) :=
  [("tags", .array [.string "ops"]), ("name", .null),
    ("manager", .object (("manager", above) :: ("role", .string role) :: others))]

theorem ofMembers_reads_promoted : ∃ user,
    ofMembers (promoted .null "ADMIN" []) = .ok user ∧ Gives (promoted .null "ADMIN" []) user ∧
    Alike (promoted .null "ADMIN" []) (promoted .null "ADMIN" [("note", .bool true)]) ∧
    ofMembers (promoted .null "ADMIN" [("note", .bool true)]) = .ok user ∧
    FirstWrong (fieldValues (promoted (.bool true) "OWNER" [])) (.unknownEnumValue "Role" "OWNER") ∧
    ofMembers (promoted (.bool true) "OWNER" []) = .error (.unknownEnumValue "Role" "OWNER") := by
  obtain ⟨_, _, hgives, hothers⟩ := ofMembers_reads (promoted .null "ADMIN" [])
  have hinner : ofMembers [("manager", .null), ("role", .string "ADMIN")] =
      .ok ⟨.unset, .unset, .set .admin, .unset, .set none⟩ := by
    rw [ofMembers_eq]
    rfl
  have hmanager : Response.field (promoted .null "ADMIN" []) "manager" (Response.nullable decode) =
      .ok (.set (some ⟨.unset, .unset, .set .admin, .unset, .set none⟩)) :=
    congrArg (fun manager => Slot.set <$> some <$> manager) hinner
  have hok : ofMembers (promoted .null "ADMIN" []) = .ok
      ⟨.unset, .set none, .unset, .set ["ops"],
        .set (some ⟨.unset, .unset, .set .admin, .unset, .set none⟩)⟩ := by
    rw [ofMembers_eq, hmanager]
    rfl
  have halike : Alike (promoted .null "ADMIN" []) (promoted .null "ADMIN" [("note", .bool true)]) :=
    .manager (by simp [Field.own, Field.key, promoted, Entries.get?]) rfl rfl
      (alike_insert [("manager", .null), ("role", .string "ADMIN")] [] fun f => by
        cases f <;> decide)
  have hvalues : fieldValues (promoted (.bool true) "OWNER" []) =
      [(.name, .null), (.tags, .array [.string "ops"]),
        (.manager, .object [("manager", .bool true), ("role", .string "OWNER")]),
        (.role, .string "OWNER"), (.manager, .bool true)] := by
    simp [fieldValues, valuesUnder, Field.own, Field.key, promoted, Entries.get?]
  have htags : ∀ e, ¬ Wrong .tags (.array [.string "ops"]) e := by
    intro e h
    cases list_text_error.mpr h
  have hrole : Wrong .role (.string "OWNER") (.unknownEnumValue "Role" "OWNER") :=
    .unknownRole fun role => by cases role <;> decide
  have hfirst : FirstWrong (fieldValues (promoted (.bool true) "OWNER" []))
      (.unknownEnumValue "Role" "OWNER") := by
    simp [hvalues, firstWrong_cons, wrong_name, wrong_manager, htags, hrole]
  exact ⟨_, hok, hgives _ hok, halike, (hothers _ halike).trans hok, hfirst,
    ((ofMembers_reads _).1 _).mpr hfirst⟩

end Graphwright.Accounts.User
