import Graphwright.Entries
import Graphwright.Registry.Basic
import Graphwright.Text.Blank

/-!
The registry of a document: its root objects become operations, every other definition a type, and
then substitutions are applied in order of name.
-/
namespace Graphwright

/-- Paths that replace generated items, by type name in ascending order. -/
abbrev Substitutions := List (String × String)

namespace Registry

/-- The operations that the fields of a definition are, if it is a root object. A name that both
roots have is the query root. -/
def rootKind? (roots : Schema.Roots) (d : Schema.Definition) : Option OperationKind :=
  match d.shape with
  | .object _ _ =>
    if d.name = roots.query then some .query
    else if d.name = roots.mutation then some .mutation
    else none
  | _ => none

/-- Adds operations, whose names are distinct. -/
def addOperations (kind : OperationKind) (r : Registry) : List Schema.Field → Except Failure Registry
  | [] => .ok r
  | f :: fs =>
    if f.name ∈ (r.operations kind).map (·.name) then
      .error (.duplicateOperation kind f.name)
    else match kind with
      | .query => addOperations kind { r with queries := r.queries ++ [f] } fs
      | .mutation => addOperations kind { r with mutations := r.mutations ++ [f] } fs

def fieldsOf : Schema.Shape → List Schema.Field
  | .object _ fields => fields
  | .interface fields => fields
  | _ => []

/-- A registry under construction. -/
structure Draft where
  registry : Registry
  /-- The root objects met so far. -/
  roots : List String
  warnings : List Warning

def Draft.add (roots : Schema.Roots) (draft : Draft) (d : Schema.Definition) :
    Except Failure Draft :=
  let kind := rootKind? roots d
  if d.name ∈ draft.roots ∨ kind.isSome ∧ d.name ∈ draft.registry.names then
    .error (.duplicateDefinition d.name)
  else match kind with
    | some kind => do
      let registry ← addOperations kind draft.registry (fieldsOf d.shape)
      return { draft with registry, roots := draft.roots ++ [d.name] }
    | none => match draft.registry.register d with
      | .added registry => return { draft with registry }
      | .ignored warning => return { draft with warnings := draft.warnings ++ [warning] }
      | .refused failure => throw failure

/-- Replaces the item of the type at a position. -/
def substituteAt (r : Registry) (position : Nat) (path : String) : Registry :=
  { r with
    types := r.types.modify position fun t => { t with substitution := some path }
    sound := by
      rw [map_modify_eq]
      · exact r.sound
      · exact fun _ => rfl }

/-- Replaces the item of one type. -/
def substitute (r : Registry) (typeName path : String) : Registry :=
  match r.position? typeName with
  | some position => r.substituteAt position path
  | none => r

@[simp] theorem index_substituteAt (r : Registry) (position : Nat) (path : String) :
    (r.substituteAt position path).index = r.index := rfl

@[simp] theorem operations_substituteAt (r : Registry) (position : Nat) (path : String) :
    (r.substituteAt position path).operations = r.operations := rfl

/-- A substitution changes nothing else of the types. -/
theorem map_types_substituteAt {α : Type} {g : RegisteredType → α}
    (h : ∀ t path, g { t with substitution := some path } = g t) (r : Registry) (position : Nat)
    (path : String) : (r.substituteAt position path).types.map g = r.types.map g :=
  map_modify_eq (fun t => h t path) r.types position

section

variable (r : Registry) (typeName path : String)

@[simp] theorem home_substitute : (r.substitute typeName path).home = r.home := by
  unfold substitute
  split <;> rfl

@[simp] theorem index_substitute : (r.substitute typeName path).index = r.index := by
  unfold substitute
  split <;> rfl

@[simp] theorem queries_substitute : (r.substitute typeName path).queries = r.queries := by
  unfold substitute
  split <;> rfl

@[simp] theorem mutations_substitute : (r.substitute typeName path).mutations = r.mutations := by
  unfold substitute
  split <;> rfl

end

def Draft.substitute (draft : Draft) (entry : String × String) : Except Failure Draft :=
  let (typeName, path) := entry
  if Text.isBlankText path then .error (.emptySubstitution typeName)
  else match draft.registry.position? typeName with
    | some position => .ok { draft with registry := draft.registry.substituteAt position path }
    | none => .ok { draft with warnings := draft.warnings ++ [.substitutionUnused typeName] }

/-- The registry of a document, with what it passes over. -/
def build (document : Schema.Document) (home : Namespace) (substitutions : Substitutions) :
    Except Failure (Registry × List Warning) := do
  let draft ← document.definitions.foldlM (Draft.add document.roots) ⟨empty home, [], []⟩
  let draft ← substitutions.foldlM Draft.substitute draft
  return (draft.registry, draft.warnings)

end Registry

end Graphwright
