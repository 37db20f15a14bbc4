import Graphwright.Client.Arguments
import Graphwright.Proofs.Execution.Run
import Graphwright.Registry.Basic

/-!
# Response values of a type

Which JSON values conform to a type of the schema, and what is read from one that does. Both are
defined by the type alone; decoders have no part in it.
-/
namespace Graphwright.Execution

/-- A JSON value conforms to a type. Without a non-null layer around it, a type also has null if it
is `nullable` where it stands. -/
inductive Conforms (r : Registry) : (nullable : Bool) → Schema.TypeRef → Json → Prop
  | null {type} (h : type.isNonNull = false) : Conforms r true type .null
  | present {type v} (h : Conforms r false type v) : Conforms r true type v
  | nonNull {type v} (h : Conforms r false type v) : Conforms r false (.nonNull type) v
  | list {element vs} (h : ∀ v ∈ vs, Conforms r true element v) :
      Conforms r false (.list element) (.array vs)
  | int {n : Int} (hlo : -Int.pow 2 31 ≤ n) (hhi : n < Int.pow 2 31) :
      Conforms r false (.named "Int") (.number (.integer n))
  | float {n : Json.Number} : Conforms r false (.named "Float") (.number n)
  | boolean {b : Bool} : Conforms r false (.named "Boolean") (.bool b)
  | string {s : String} : Conforms r false (.named "String") (.string s)
  | id {s : String} : Conforms r false (.named "ID") (.string s)
  | enumeration {name t values value} (hf : r.find? name = some t)
      (hs : t.definition.shape = .enumeration values) (hv : value ∈ values) :
      Conforms r false (.named name) (.string value.name)
  | customScalar {name t v} (hf : r.find? name = some t) (hs : t.definition.shape = .scalar) :
      Conforms r false (.named name) v
  | object {name t interfaces fields members} (hf : r.find? name = some t)
      (hs : t.definition.shape = .object interfaces fields)
      (h : ∀ f ∈ fields, ∀ v, Entries.get? f.name members = some v → Conforms r true f.type v) :
      Conforms r false (.named name) (.object members)

mutual
/-- What a value of a type is read as: null at a nullable layer as an absent value, a list as the
list of what its elements are read as, and an object as a slot for each declared field. -/
inductive Reads (r : Registry) : (nullable : Bool) → Schema.TypeRef → Json → Value → Prop
  | null {type} (h : type.isNonNull = false) : Reads r true type .null .absent
  | present {type v w} (hn : type.isNonNull = false) (hv : v ≠ .null) (h : Reads r false type v w) :
      Reads r true type v (.present w)
  | nonNull {nullable type v w} (h : Reads r false type v w) :
      Reads r nullable (.nonNull type) v w
  | list {element vs ws} (h : ReadsElements r element vs ws) :
      Reads r false (.list element) (.array vs) (.list ws)
  | int {n : Int} (hlo : -Int.pow 2 31 ≤ n) (hhi : n < Int.pow 2 31) :
      Reads r false (.named "Int") (.number (.integer n)) (.integer n)
  | floatOfInt {n : Int} : Reads r false (.named "Float") (.number (.integer n)) (.float (.ofInt n))
  | float {x : Binary64} : Reads r false (.named "Float") (.number (.float x)) (.float x)
  | boolean {b : Bool} : Reads r false (.named "Boolean") (.bool b) (.boolean b)
  | string {s : String} : Reads r false (.named "String") (.string s) (.text s)
  | id {s : String} : Reads r false (.named "ID") (.string s) (.text s)
  | enumeration {name t values value} (hf : r.find? name = some t)
      (hs : t.definition.shape = .enumeration values) (hv : value ∈ values) :
      Reads r false (.named name) (.string value.name) (.enumeration value.name)
  | customScalar {name t v} (hf : r.find? name = some t) (hs : t.definition.shape = .scalar) :
      Reads r false (.named name) v (.raw v)
  | object {name t interfaces fields members slots} (hf : r.find? name = some t)
      (hs : t.definition.shape = .object interfaces fields)
      (h : ReadsFields r members fields slots) :
      Reads r false (.named name) (.object members) (.object slots)

/-- Each element is read, in order. -/
inductive ReadsElements (r : Registry) : Schema.TypeRef → List Json → List Value → Prop
  | nil {element} : ReadsElements r element [] []
  | cons {element v w vs ws} (h : Reads r true element v w) (hs : ReadsElements r element vs ws) :
      ReadsElements r element (v :: vs) (w :: ws)

/-- The slot of each field is set to what its entry is read as, and stays unset if there is none. -/
inductive ReadsFields (r : Registry) :
    List (String × Json) → List Schema.Field → List (String × Slot Value) → Prop
  | nil {members} : ReadsFields r members [] []
  | unset {members f fs slots} (h : Entries.get? f.name members = none)
      (hs : ReadsFields r members fs slots) :
      ReadsFields r members (f :: fs) ((Client.memberName f.name, .unset) :: slots)
  | set {members f fs slots v w} (hv : Entries.get? f.name members = some v)
      (h : Reads r true f.type v w) (hs : ReadsFields r members fs slots) :
      ReadsFields r members (f :: fs) ((Client.memberName f.name, .set w) :: slots)
end

/-! ## What is read conforms -/

mutual
theorem Reads.conforms {r : Registry} {nullable : Bool} {type : Schema.TypeRef} {v : Json}
    {w : Value} : Reads r nullable type v w → Conforms r nullable type v
  | .null h => .null h
  | .present _ _ h => .present h.conforms
  | @Reads.nonNull _ nullable _ _ _ h => by
      have hc := Conforms.nonNull h.conforms
      cases nullable with
      | false => exact hc
      | true => exact .present hc
  | .list h => .list h.conforms
  | .int hlo hhi => .int hlo hhi
  | .floatOfInt => .float
  | .float => .float
  | .boolean => .boolean
  | .string => .string
  | .id => .id
  | .enumeration hf hs hv => .enumeration hf hs hv
  | .customScalar hf hs => .customScalar hf hs
  | .object hf hs h => .object hf hs h.conforms

theorem ReadsElements.conforms {r : Registry} {element : Schema.TypeRef} {vs : List Json}
    {ws : List Value} : ReadsElements r element vs ws → ∀ v ∈ vs, Conforms r true element v
  | .nil, _, hv => nomatch hv
  | .cons h hs, v, hv => by
      rcases List.mem_cons.mp hv with hv | hv
      · exact hv ▸ h.conforms
      · exact hs.conforms v hv

theorem ReadsFields.conforms {r : Registry} {members : List (String × Json)}
    {fields : List Schema.Field} {slots : List (String × Slot Value)} :
    ReadsFields r members fields slots →
      ∀ f ∈ fields, ∀ v, Entries.get? f.name members = some v → Conforms r true f.type v
  | .nil, _, hf, _, _ => nomatch hf
  | .unset h hs, f, hf, v, hv => by
      rcases List.mem_cons.mp hf with hf | hf
      · rw [hf, h] at hv
        cases hv
      · exact hs.conforms f hf v hv
  | .set hv' h hs, f, hf, v, hv => by
      rcases List.mem_cons.mp hf with hf | hf
      · rw [hf, hv'] at hv
        rw [hf]
        exact Option.some.inj hv ▸ h.conforms
      · exact hs.conforms f hf v hv
end

/-- Where null is accepted, any other value conforms as if it were not. -/
theorem Conforms.of_ne_null {r : Registry} {nullable : Bool} {type : Schema.TypeRef} {v : Json}
    (h : Conforms r nullable type v) (hv : v ≠ .null) : Conforms r false type v := by
  cases nullable with
  | false => exact h
  | true =>
      cases h with
      | null => exact absurd rfl hv
      | present h => exact h

/-- What conforms to a registered type has the shape of its definition. -/
theorem Conforms.of_find? {r : Registry} {name : String} {t : RegisteredType} {v : Json}
    (h : Conforms r false (.named name) v) (hb : Primitive.ofName? name = none)
    (hf : r.find? name = some t) :
    (∃ values value, t.definition.shape = .enumeration values ∧ value ∈ values ∧
      v = .string value.name) ∨
    t.definition.shape = .scalar ∨
    ∃ interfaces fields members, t.definition.shape = .object interfaces fields ∧
      v = .object members ∧
      ∀ f ∈ fields, ∀ u, Entries.get? f.name members = some u → Conforms r true f.type u := by
  cases h with
  | enumeration hf' hs hv =>
      cases hf.symm.trans hf'
      exact Or.inl ⟨_, _, hs, hv, rfl⟩
  | customScalar hf' hs =>
      cases hf.symm.trans hf'
      exact Or.inr (Or.inl hs)
  | object hf' hs h =>
      cases hf.symm.trans hf'
      exact Or.inr (Or.inr ⟨_, _, _, hs, rfl, h⟩)
  | int | float | boolean | string | id => cases hb

end Graphwright.Execution
