import Graphwright.Entries
import Graphwright.Registry.Namespace
import Graphwright.Warning

/-!
The types of a schema by name, and its operations. Names are registered once; a built-in scalar
that is declared again is passed over. Main statement: registering keeps names distinct and what
was registered before.
-/
namespace Graphwright

/-- The built-in scalars; `String` and `ID` are both text. -/
inductive Primitive
  | integer | float | boolean | text
  deriving DecidableEq, Repr

def Primitive.ofName? : String → Option Primitive
  | "Int" => some integer
  | "Float" => some float
  | "Boolean" => some boolean
  | "String" => some text
  | "ID" => some text
  | _ => none

/-- A type of the schema, with the path of the item that stands for it. -/
structure RegisteredType where
  definition : Schema.Definition
  generatedPath : String
  /-- The path of a hand-written item used in place of the generated one. -/
  substitution : Option String
  deriving DecidableEq, Repr

namespace RegisteredType

def name (t : RegisteredType) : String := t.definition.name

def category (t : RegisteredType) : Schema.Category := t.definition.category

def isSubstituted (t : RegisteredType) : Bool := t.substitution.isSome

/-- The path that references to the type use. -/
def artifactPath (t : RegisteredType) : String := t.substitution.getD t.generatedPath

end RegisteredType

/-- Whatever an index gives for a name is a position at which the name stands. -/
def IndexSound (names : List String) (index : List (String × Nat)) : Prop :=
  ∀ name i, Entries.get? name index = some i → names[i]? = some name

namespace IndexSound

theorem nil : IndexSound [] [] := fun _ _ h => nomatch h

theorem concat {names : List String} {index : List (String × Nat)} (h : IndexSound names index)
    (added : String) :
    IndexSound (names ++ [added]) (Entries.put added names.length index) := by
  intro name i hi
  rw [Entries.get?_put] at hi
  split at hi
  · rename_i hname
    cases hi
    rw [List.getElem?_concat_length, hname]
  · have hold := h name i hi
    rw [List.getElem?_append_left (List.getElem?_eq_some_iff.mp hold).1, hold]

/-- Names with their positions are an index. -/
theorem zipIdx (names : List String) : IndexSound names names.zipIdx :=
  fun _ _ h => List.mk_mem_zipIdx_iff_getElem?.mp (Entries.mem_of_get? h)

end IndexSound

/-- A change of one element that a function does not see. -/
theorem map_modify_eq {α β : Type} {f : α → α} {g : α → β} (h : ∀ a, g (f a) = g a) (l : List α)
    (i : Nat) : (l.modify i f).map g = l.map g := by
  induction l generalizing i with
  | nil => cases i <;> rfl
  | cons a l ih => cases i <;> simp [h, ih]

/-- The types of a schema and its operations. A type is found by the position at which its name
stands in the index. -/
@[ext]
structure Registry where
  home : Namespace
  /-- In the order in which they were registered. -/
  types : List RegisteredType
  /-- Where the type of each name stands. -/
  index : List (String × Nat)
  queries : List Schema.Field
  mutations : List Schema.Field
  sound : IndexSound (types.map (·.name)) index

/-- What comes of registering a definition. -/
inductive Registration
  | added (registry : Registry)
  | ignored (warning : Warning)
  | refused (failure : Failure)

namespace Registry

def empty (home : Namespace) : Registry := ⟨home, [], [], [], [], .nil⟩

/-- The names that are taken. -/
def names (r : Registry) : List String := Entries.names r.index

def position? (r : Registry) (name : String) : Option Nat := Entries.get? name r.index

/-- The type at the position of a name. There is one at every position of the index. -/
def find? (r : Registry) (name : String) : Option RegisteredType :=
  (r.position? name).bind (r.types[·]?)

def categoryOf? (r : Registry) (name : String) : Option Schema.Category :=
  (r.find? name).map (·.category)

/-- The types of a category in the order in which they were registered. -/
def ofCategory (r : Registry) (category : Schema.Category) : List RegisteredType :=
  r.types.filter (·.category = category)

def operations (r : Registry) : OperationKind → List Schema.Field
  | .query => r.queries
  | .mutation => r.mutations

/-- The registry with a type behind the others, at whose position its name stands. -/
def insert (r : Registry) (t : RegisteredType) : Registry :=
  { r with
    types := r.types ++ [t]
    index := Entries.put t.name r.types.length r.index
    sound := by
      rw [List.map_append, ← List.length_map (·.name)]
      exact r.sound.concat t.name }

def register (r : Registry) (d : Schema.Definition) : Registration :=
  if (Primitive.ofName? d.name).isSome then
    if d.shape = .scalar then .ignored (.builtinRedeclared d.name)
    else .refused (.duplicateDefinition d.name)
  else if d.name ∈ r.names then .refused (.duplicateDefinition d.name)
  else .added (r.insert ⟨d, r.home.typePath d.name, none⟩)

/-- The registry after a definition has been offered to it. -/
def after (r : Registry) (d : Schema.Definition) : Registry :=
  match r.register d with
  | .added registry => registry
  | _ => r

@[simp] theorem types_insert (r : Registry) (t : RegisteredType) :
    (r.insert t).types = r.types ++ [t] := rfl

@[simp] theorem home_insert (r : Registry) (t : RegisteredType) : (r.insert t).home = r.home := rfl

@[simp] theorem operations_insert (r : Registry) (t : RegisteredType) :
    (r.insert t).operations = r.operations := rfl

theorem index_insert (r : Registry) (t : RegisteredType) :
    (r.insert t).index = Entries.put t.name r.types.length r.index := rfl

theorem find?_of_position? {r : Registry} {name : String} {i : Nat} (h : r.position? name = some i) :
    ∃ t, r.types[i]? = some t ∧ t.name = name ∧ r.find? name = some t := by
  have hname := r.sound name i h
  rw [List.getElem?_map] at hname
  obtain ⟨t, ht, hname⟩ := Option.map_eq_some_iff.mp hname
  exact ⟨t, ht, hname, by rw [find?, h, Option.bind_some, ht]⟩

theorem mem_of_find? {r : Registry} {name : String} {t : RegisteredType}
    (h : r.find? name = some t) : t ∈ r.types ∧ t.name = name := by
  obtain ⟨i, hi, _⟩ := Option.bind_eq_some_iff.mp h
  obtain ⟨t', ht', hname, hfind⟩ := find?_of_position? hi
  cases h.symm.trans hfind
  exact ⟨List.mem_of_getElem? ht', hname⟩

theorem mem_names_of_find? {r : Registry} {name : String} {t : RegisteredType}
    (h : r.find? name = some t) : name ∈ r.names := by
  obtain ⟨i, hi, _⟩ := Option.bind_eq_some_iff.mp h
  exact Entries.mem_names_of_get? hi

theorem find?_eq_none_iff {r : Registry} {name : String} :
    r.find? name = none ↔ name ∉ r.names := by
  rw [names, ← Entries.get?_eq_none_iff, ← position?]
  cases hi : r.position? name with
  | none => simp [find?, hi]
  | some i =>
      obtain ⟨t, _, _, ht⟩ := find?_of_position? hi
      simp [ht]

end Registry

end Graphwright
