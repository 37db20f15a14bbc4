import Graphwright.Client.Inline
import Mathlib.Data.Multiset.AddSub
import Mathlib.Logic.Relation

/-!
# The search for containing objects

A search keeps the names that it still has to look at and those that it has visited. A pass takes
any of the pending names; a name that is visited brings in what its object stores by value. Since a
name is visited once, there are at most as many passes as names can become pending, on cycles too.
What has been visited is closed under storing, up to what is still pending; so whichever names are
taken first, a search that ends has found its name exactly if a chain of stored objects leads there.
-/
namespace Graphwright.Client

/-- One object stores another by value, boxes left aside. -/
def Stored (r : Registry) (a b : String) : Prop := b ∈ inlineTargets r a

/-! ## What is stored -/

theorem inlineObject?_eq_some {r : Registry} {resolved : ResolvedType} {b : String} :
    inlineObject? r resolved = some b ↔ resolved.isList = false ∧
      ∃ path t, resolved.base = .registered b .outputObject path ∧ r.find? b = some t ∧
        t.isSubstituted = false := by
  unfold inlineObject?
  split
  · rename_i hl
    simp [hl]
  · rename_i hl
    split
    · rename_i n path hb
      rw [hb]
      cases hf : r.find? n with
      | none => grind
      | some t => cases hs : t.isSubstituted <;> grind
    · rename_i hne
      grind

/-- A field of the registered object `a` resolves, with no list around it, to an object `b` that no
hand-written item replaces. -/
def RefersInline (r : Registry) (a b : String) : Prop :=
  ∃ t interfaces fields f, r.find? a = some t ∧ t.definition.shape = .object interfaces fields ∧
    f ∈ fields ∧ ∃ isNullable path target,
      r.resolve f.type a = .ok (.named isNullable (.registered b .outputObject path)) ∧
      r.find? b = some target ∧ target.isSubstituted = false

theorem stored_iff_refersInline {r : Registry} {a b : String} :
    Stored r a b ↔ RefersInline r a b := by
  constructor
  · intro h
    unfold Stored inlineTargets at h
    split at h
    · rename_i t ht
      split at h
      · rename_i interfaces fields hs
        obtain ⟨f, hf, h⟩ := List.mem_filterMap.mp h
        split at h
        · rename_i resolved hres
          obtain ⟨hl, path, target, hbase, hfind, hsub⟩ := inlineObject?_eq_some.mp h
          cases resolved with
          | named isNullable base =>
              subst hbase
              exact ⟨t, interfaces, fields, f, ht, hs, hf, isNullable, path, target, hres, hfind,
                hsub⟩
          | list isNullable element => cases hl
        · cases h
      · cases h
    · cases h
  · rintro ⟨t, interfaces, fields, f, ht, hs, hf, isNullable, path, target, hres, hfind, hsub⟩
    simp only [Stored, inlineTargets, ht, hs]
    refine List.mem_filterMap.mpr ⟨f, hf, ?_⟩
    rw [hres]
    exact inlineObject?_eq_some.mpr ⟨rfl, path, target, rfl, hfind, hsub⟩

/-! ## Passes of a search -/

/-- A search for the objects that store some object by value. The order of the pending names is left
open. -/
structure Search where
  pending : Multiset String
  visited : List String

namespace Search

def of (start : String) : Search := ⟨{start}, []⟩

/-- A pass takes a pending name that is not the one to be found. It drops a name that has been
visited, and replaces any other by what it stores. -/
inductive Pass (r : Registry) (owner : String) : Search → Search → Prop
  | drop {name : String} {pending : Multiset String} {visited : List String} :
      name ≠ owner → name ∈ visited → Pass r owner ⟨name ::ₘ pending, visited⟩ ⟨pending, visited⟩
  | visit {name : String} {pending : Multiset String} {visited : List String} :
      name ≠ owner → name ∉ visited →
      Pass r owner ⟨name ::ₘ pending, visited⟩ ⟨inlineTargets r name + pending, name :: visited⟩

/-- A search ends with the name to be found at hand, or with nothing left to look at. -/
inductive Ends (owner : String) : Search → Bool → Prop
  | found {pending : Multiset String} {visited : List String} :
      owner ∈ pending → Ends owner ⟨pending, visited⟩ true
  | exhausted {visited : List String} : Ends owner ⟨0, visited⟩ false

/-- A number of passes, one after the other. -/
inductive Run (r : Registry) (owner : String) : Nat → Search → Search → Prop
  | refl (s : Search) : Run r owner 0 s s
  | head {n : Nat} {s t u : Search} : Pass r owner s t → Run r owner n t u → Run r owner (n + 1) s u

variable {r : Registry} {start owner : String}

/-! ## How long a search takes -/

/-- The names that are pending, and those that may still become so. -/
def size (r : Registry) (s : Search) : Nat :=
  s.pending.card + (unvisitedTargets r s.visited).length

theorem size_of : (Search.of start).size r = 1 + (r.names.flatMap (inlineTargets r)).length := by
  simp [Search.of, size, unvisitedTargets, unvisited]

theorem Pass.size_lt {s t : Search} (h : Pass r owner s t) : t.size r < s.size r := by
  cases h with
  | drop hne hv => simp [size]
  | visit hne hv =>
      have := length_inlineTargets_add_le r hv
      simp only [size, Multiset.card_add, Multiset.coe_card, Multiset.card_cons]
      omega

theorem Run.add_size_le {n : Nat} {s t : Search} (h : Run r owner n s t) :
    n + t.size r ≤ s.size r := by
  induction h with
  | refl s => simp
  | head hpass hrun ih =>
      have := hpass.size_lt
      omega

/-- A search goes on until it ends. -/
theorem exists_pass_or_ends (s : Search) (r : Registry) (owner : String) :
    (∃ t, Pass r owner s t) ∨ ∃ answer, s.Ends owner answer := by
  obtain ⟨pending, visited⟩ := s
  induction pending using Multiset.induction with
  | empty => exact Or.inr ⟨_, .exhausted⟩
  | cons name pending _ =>
      by_cases hne : name = owner
      · exact Or.inr ⟨true, .found (by simp [hne])⟩
      · by_cases hv : name ∈ visited
        · exact Or.inl ⟨_, .drop hne hv⟩
        · exact Or.inl ⟨_, .visit hne hv⟩

/-! ## What a search finds -/

/-- What is pending is stored in `start`, however deep. What a visited object stores is visited or
pending, and so is `start`. -/
structure Invariant (r : Registry) (start owner : String) (s : Search) : Prop where
  reached : ∀ name ∈ s.pending, Relation.ReflTransGen (Stored r) start name
  covers : start ∈ s.visited ∨ start ∈ s.pending
  closed : ∀ v ∈ s.visited, ∀ w, Stored r v w → w ∈ s.visited ∨ w ∈ s.pending
  unseen : owner ∉ s.visited

theorem invariant_of : Invariant r start owner (Search.of start) where
  reached name h := by
    rw [Multiset.mem_singleton.mp h]
  covers := Or.inr (Multiset.mem_singleton_self start)
  closed v h := by cases h
  unseen h := by cases h

theorem Pass.invariant {s t : Search} (h : Pass r owner s t) (hs : Invariant r start owner s) :
    Invariant r start owner t := by
  cases h with
  | @drop name pending visited hne hv =>
      -- A name that goes has been visited, so it is covered without being pending.
      have hkeep : ∀ w, w ∈ visited ∨ w ∈ name ::ₘ pending → w ∈ visited ∨ w ∈ pending := by
        rintro w (hw | hw)
        · exact Or.inl hw
        · rcases Multiset.mem_cons.mp hw with rfl | hw
          · exact Or.inl hv
          · exact Or.inr hw
      exact {
        reached := fun n hn => hs.reached n (Multiset.mem_cons_of_mem hn)
        covers := hkeep _ hs.covers
        closed := fun v hvis w hw => hkeep w (hs.closed v hvis w hw)
        unseen := hs.unseen }
  | @visit name pending visited hne hv =>
      have hkeep : ∀ w, w ∈ visited ∨ w ∈ name ::ₘ pending →
          w ∈ name :: visited ∨ w ∈ (inlineTargets r name : Multiset String) + pending := by
        rintro w (hw | hw)
        · exact Or.inl (List.mem_cons_of_mem _ hw)
        · rcases Multiset.mem_cons.mp hw with rfl | hw
          · exact Or.inl List.mem_cons_self
          · exact Or.inr (Multiset.mem_add.mpr (Or.inr hw))
      exact {
        reached := by
          intro n hn
          rcases Multiset.mem_add.mp hn with hn | hn
          · exact (hs.reached name (Multiset.mem_cons_self name pending)).tail hn
          · exact hs.reached n (Multiset.mem_cons_of_mem hn)
        covers := hkeep _ hs.covers
        closed := by
          intro v hvis w hw
          rcases List.mem_cons.mp hvis with rfl | hvis
          · exact Or.inr (Multiset.mem_add.mpr (Or.inl hw))
          · exact hkeep w (hs.closed v hvis w hw)
        unseen := by
          rw [List.mem_cons, not_or]
          exact ⟨Ne.symm hne, hs.unseen⟩ }

theorem Run.invariant {n : Nat} {s t : Search} (h : Run r owner n s t)
    (hs : Invariant r start owner s) : Invariant r start owner t := by
  induction h with
  | refl s => exact hs
  | head hpass _ ih => exact ih (hpass.invariant hs)

/-- The answer with which a search ends is right. -/
theorem Invariant.answer_iff {s : Search} {answer : Bool} (hs : Invariant r start owner s)
    (h : s.Ends owner answer) :
    answer = true ↔ Relation.ReflTransGen (Stored r) start owner := by
  cases h with
  | found hmem => simpa using hs.reached owner hmem
  | @exhausted visited =>
      -- With nothing pending, no chain leaves what has been visited.
      have hstay : ∀ n, Relation.ReflTransGen (Stored r) start n → n ∈ visited := by
        intro n hn
        induction hn with
        | refl => simpa using hs.covers
        | tail _ hstored ih => simpa using hs.closed _ ih _ hstored
      simpa using fun hchain => hs.unseen (hstay owner hchain)

/-- Going through the pending names in order is one way to search. -/
theorem exists_run_ends (r : Registry) (owner : String) (pending visited : List String) :
    ∃ n s, Run r owner n ⟨pending, visited⟩ s ∧
      s.Ends owner (reachesFrom r owner pending visited) := by
  fun_induction reachesFrom r owner pending visited with
  | case1 visited => exact ⟨0, _, .refl _, .exhausted⟩
  | case2 visited rest => exact ⟨0, _, .refl _, .found (by simp)⟩
  | case3 visited name rest hne hv ih =>
      obtain ⟨n, s, hrun, hends⟩ := ih
      have hpass : Pass r owner ⟨name ::ₘ rest, visited⟩ ⟨rest, visited⟩ := .drop hne hv
      exact ⟨n + 1, s, .head hpass hrun, hends⟩
  | case4 visited name rest hne hv ih =>
      obtain ⟨n, s, hrun, hends⟩ := ih
      have hpass : Pass r owner ⟨name ::ₘ rest, visited⟩
          ⟨inlineTargets r name + rest, name :: visited⟩ := .visit hne hv
      exact ⟨n + 1, s, .head hpass hrun, hends⟩

end Search

theorem reaches_iff {r : Registry} {start owner : String} :
    reaches r start owner = true ↔ Relation.ReflTransGen (Stored r) start owner := by
  obtain ⟨n, s, hrun, hends⟩ := Search.exists_run_ends r owner [start] []
  exact (hrun.invariant Search.invariant_of).answer_iff hends

/-- Whichever pending names it takes, a search goes on until it ends, after one pass at most for its
start and one for each reference by which an object is stored. It ends with the answer of `reaches`:
whether its start is the name to be found or a chain of such references leads there. -/
theorem reaches_search (r : Registry) (start owner : String) :
    (∀ n s, Search.Run r owner n (.of start) s →
      n ≤ 1 + (r.names.flatMap (inlineTargets r)).length ∧
      ((∃ t, Search.Pass r owner s t) ∨ ∃ answer, s.Ends owner answer) ∧
      ∀ answer, s.Ends owner answer → answer = reaches r start owner) ∧
    (∃ n s, Search.Run r owner n (.of start) s ∧ s.Ends owner (reaches r start owner)) ∧
    (reaches r start owner = true ↔
      owner = start ∨ Relation.TransGen (RefersInline r) start owner) := by
  have hstored : Stored r = RefersInline r := by
    funext a b
    exact propext stored_iff_refersInline
  refine ⟨fun n s hrun => ⟨?_, s.exists_pass_or_ends r owner, fun answer hends => ?_⟩,
    Search.exists_run_ends r owner [start] [], ?_⟩
  · have := hrun.add_size_le
    rw [Search.size_of] at this
    omega
  · rw [Bool.eq_iff_iff, (hrun.invariant Search.invariant_of).answer_iff hends, reaches_iff]
  · rw [reaches_iff, hstored, Relation.reflTransGen_iff_eq_or_transGen]

end Graphwright.Client
