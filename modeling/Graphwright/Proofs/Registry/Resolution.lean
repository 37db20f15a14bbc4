import Graphwright.Client.Reference
import Graphwright.Proofs.Registry.Invariants

/-!
# What resolved references stand for

A reference that resolves stands for what its innermost name is registered as, wherever it stands.
If its base is concrete, there is an item that its values can be kept in.
-/
namespace Graphwright

/-- There are values of the type: it is no union, and no interface unless a hand-written item
replaces it. -/
def RegisteredType.IsConcrete (t : RegisteredType) : Prop :=
  t.category ≠ .union ∧ (t.category = .interface → t.isSubstituted = true)

/-- The type that also has the absent value. -/
def ResolvedType.widened : ResolvedType → ResolvedType
  | named _ target => named true target
  | list _ element => list true element

namespace Registry

theorem target?_eq_registered {r : Registry} {name n p : String} {c : Schema.Category}
    (h : r.target? name = some (.registered n c p)) :
    n = name ∧ ∃ t, r.find? name = some t ∧ t.category = c ∧ t.artifactPath = p := by
  unfold target? at h
  split at h
  · cases h
  · obtain ⟨t, ht, e⟩ := Option.map_eq_some_iff.mp h
    cases e
    exact ⟨(mem_of_find? ht).2, t, ht, rfl, rfl⟩

theorem target?_eq_builtin {r : Registry} {name : String} {p : Primitive}
    (h : r.target? name = some (.builtin p)) : Primitive.ofName? name = some p := by
  unfold target? at h
  split at h
  · rename_i hp
    cases h
    exact hp
  · obtain ⟨t, _, e⟩ := Option.map_eq_some_iff.mp h
    cases e

theorem resolveLayer_base {r : Registry} {context : String} {nullable : Bool}
    {type : Schema.TypeRef} {t : ResolvedType}
    (h : r.resolveLayer context nullable type = .ok t) : r.target? type.baseName = some t.base := by
  induction type generalizing nullable t with
  | named name =>
      simp only [resolveLayer] at h
      split at h
      · rename_i target ht
        cases h
        exact ht
      · cases h
  | list element ih =>
      obtain ⟨u, hu, e⟩ := Outcome.map_ok.mp h
      cases e
      have hb := ih hu
      exact hb
  | nonNull inner ih => exact ih h

theorem resolve_base {r : Registry} {context : String} {type : Schema.TypeRef} {t : ResolvedType}
    (h : r.resolve type context = .ok t) : r.target? type.baseName = some t.base :=
  resolveLayer_base h

/-- Where a reference stands shows only in a failure. -/
theorem resolveLayer_context {r : Registry} {context : String} {nullable : Bool}
    {type : Schema.TypeRef} {t : ResolvedType} (h : r.resolveLayer context nullable type = .ok t)
    (context' : String) : r.resolveLayer context' nullable type = .ok t := by
  induction type generalizing nullable t with
  | named name =>
      simp only [resolveLayer] at h ⊢
      cases ht : r.target? name with
      | none => rw [ht] at h; cases h
      | some target => rw [ht] at h; exact h
  | list element ih =>
      obtain ⟨u, hu, e⟩ := Outcome.map_ok.mp h
      exact Outcome.map_ok.mpr ⟨u, ih hu, e⟩
  | nonNull inner ih => exact ih h

theorem resolve_context {r : Registry} {context : String} {type : Schema.TypeRef} {t : ResolvedType}
    (h : r.resolve type context = .ok t) (context' : String) : r.resolve type context' = .ok t :=
  resolveLayer_context h context'

end Registry

namespace Client

/-- What stands under the layers of a reference that generated code uses. -/
def ConcreteBase (r : Registry) : Target → Prop
  | .builtin _ => True
  | .registered name category path =>
    ∃ t, r.find? name = some t ∧ t.category = category ∧ t.artifactPath = path ∧ t.IsConcrete

theorem isSubstitutedInterface_iff {r : Registry} {name : String} {t : RegisteredType}
    (h : r.find? name = some t) :
    isSubstitutedInterface r name = true ↔ t.category = .interface ∧ t.isSubstituted = true := by
  simp [isSubstitutedInterface, h]

theorem isConcrete_iff {r : Registry} {name : String} {t : RegisteredType}
    (h : r.find? name = some t) :
    t.IsConcrete ↔ (t.category.isAbstract && !isSubstitutedInterface r name) = false := by
  have hs := isSubstitutedInterface_iff h
  cases hi : isSubstitutedInterface r name <;> cases hc : t.category <;>
    simp_all [RegisteredType.IsConcrete, Schema.Category.isAbstract]

/-- A reference is concrete exactly if it resolves to something that has values. -/
theorem resolveConcrete_ok {r : Registry} {type : Schema.TypeRef} {context : String}
    {t : ResolvedType} :
    resolveConcrete r type context = .ok t ↔
      r.resolve type context = .ok t ∧ ConcreteBase r t.base := by
  unfold resolveConcrete
  rw [Outcome.bind_ok]
  constructor
  · rintro ⟨u, hu, h⟩
    split at h
    · rename_i name category path hb
      split at h
      · cases h
      · rename_i hc
        cases h
        refine ⟨hu, ?_⟩
        have ht := Registry.resolve_base hu
        rw [hb] at ht ⊢
        obtain ⟨rfl, rt, hf, rfl, rfl⟩ := Registry.target?_eq_registered ht
        exact ⟨rt, hf, rfl, rfl, (isConcrete_iff hf).mpr (by simpa using hc)⟩
    · rename_i p hb
      cases h
      exact ⟨hu, by rw [hb]; trivial⟩
  · rintro ⟨hu, hc⟩
    refine ⟨t, hu, ?_⟩
    split
    · rename_i name category path hb
      rw [hb] at hc
      obtain ⟨rt, hf, rfl, rfl, hrt⟩ := hc
      rw [if_neg (by rw [(isConcrete_iff hf).mp hrt]; exact Bool.false_ne_true)]
      rfl
    · rfl

theorem resolveConcrete_context {r : Registry} {type : Schema.TypeRef} {context : String}
    {t : ResolvedType} (h : resolveConcrete r type context = .ok t) (context' : String) :
    resolveConcrete r type context' = .ok t := by
  obtain ⟨hr, hc⟩ := resolveConcrete_ok.mp h
  exact resolveConcrete_ok.mpr ⟨Registry.resolve_context hr context', hc⟩

theorem mem_primary {r : Registry} {category : Schema.Category} {t : RegisteredType} :
    t ∈ primary r category ↔ t ∈ r.types ∧ t.category = category ∧ t.isSubstituted = false := by
  simp only [primary, Registry.ofCategory, List.mem_filter, decide_eq_true_eq, Bool.not_eq_true',
    and_assoc]

end Client

end Graphwright
