import Graphwright.Registry.Build
import Graphwright.Registry.Resolve

/-!
Which generated objects store which by value. A field on a cycle of this relation has to be kept on
the heap, or the object would contain itself.
-/
namespace Graphwright.Client

/-- The generated object that a reference stores by value: a reference that is no list to an object
that no hand-written item replaces. -/
def inlineObject? (r : Registry) (resolved : ResolvedType) : Option String :=
  if resolved.isList then none
  else match resolved.base with
    | .registered name .outputObject _ =>
      match r.find? name with
      | some t => if t.isSubstituted then none else some name
      | none => none
    | _ => none

/-- What the fields of an object store by value. References that do not resolve store nothing. -/
def inlineTargets (r : Registry) (name : String) : List String :=
  match r.find? name with
  | some t => match t.definition.shape with
    | .object _ fields => fields.filterMap fun f =>
      match r.resolve f.type name with
      | .ok resolved => inlineObject? r resolved
      | .error _ => none
    | _ => []
  | none => []

/-- The registered names that have not been visited. -/
def unvisited (r : Registry) (visited : List String) : List String :=
  r.names.filter (· ∉ visited)

/-- What the objects that have not been visited store by value. -/
def unvisitedTargets (r : Registry) (visited : List String) : List String :=
  (unvisited r visited).flatMap (inlineTargets r)

theorem mem_names_of_inlineTargets {r : Registry} {name : String} (h : inlineTargets r name ≠ []) :
    name ∈ r.names := by
  unfold inlineTargets at h
  split at h
  · rename_i t ht
    exact Registry.mem_names_of_find? ht
  · simp at h

/-- Of what the names that have not been visited store, a visit takes away what its name stores. -/
theorem length_flatMap_filter_not_mem_cons_le (targets : String → List String) (name : String)
    (visited : List String) : ∀ ns : List String, name ∉ visited → (targets name ≠ [] → name ∈ ns) →
      (targets name).length + ((ns.filter (· ∉ name :: visited)).flatMap targets).length
        ≤ ((ns.filter (· ∉ visited)).flatMap targets).length
  | [], _, h => by simpa using h
  | n :: ns, hv, h => by
    have hle : ∀ ms : List String, ((ms.filter (· ∉ name :: visited)).flatMap targets).length
        ≤ ((ms.filter (· ∉ visited)).flatMap targets).length := by
      intro ms
      induction ms with
      | nil => simp
      | cons m ms ih => simp only [List.filter_cons]; grind
    have ih := length_flatMap_filter_not_mem_cons_le targets name visited ns hv
    have := hle ns
    simp only [List.filter_cons]
    grind

theorem length_inlineTargets_add_le (r : Registry) {name : String} {visited : List String}
    (hv : name ∉ visited) :
    (inlineTargets r name).length + (unvisitedTargets r (name :: visited)).length
      ≤ (unvisitedTargets r visited).length :=
  length_flatMap_filter_not_mem_cons_le (inlineTargets r) name visited r.names hv
    mem_names_of_inlineTargets

/-- Whether `owner` is among the pending names or stored by value, however deep, in what has not
been visited. What a name stores is looked at before the other pending names. -/
def reachesFrom (r : Registry) (owner : String) (pending visited : List String) : Bool :=
  match pending with
  | [] => false
  | name :: rest =>
    if name = owner then true
    else if _hv : name ∈ visited then reachesFrom r owner rest visited
    else reachesFrom r owner (inlineTargets r name ++ rest) (name :: visited)
  termination_by pending.length + (unvisitedTargets r visited).length
  decreasing_by
    · simp
    · have := length_inlineTargets_add_le r _hv
      simp only [List.length_append, List.length_cons]
      omega

/-- Whether `owner` is `start` or is stored by value, however deep, in it. -/
def reaches (r : Registry) (start owner : String) : Bool := reachesFrom r owner [start] []

end Graphwright.Client
