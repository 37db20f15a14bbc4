import Graphwright.Failure
import Graphwright.Proofs.Outcome

/-!
# What a computation needs in order not to be broken off

Some failures break off the run on the spot, and all others are reported. A computation that is calm
ends in none of the former. One that needs a condition is calm where the condition holds, and never
succeeds where it does not. Of the failures that a computation can end in, whatever they are, each
is one of a step of it.
-/
namespace Graphwright

variable {α β : Type} {P Q : Prop}

/-- The computation is not broken off. -/
def Calm (x : Except Failure α) : Prop := ∀ f, x = .error f → f.isAbort = false

/-- The computation succeeds only if `P` holds, and is not broken off if it does. -/
structure Needs (P : Prop) (x : Except Failure α) : Prop where
  needed : ∀ a, x = .ok a → P
  calm : P → Calm x

/-- The run is broken off. -/
def isAborted : Except Failure α → Bool
  | .error f => f.isAbort
  | .ok _ => false

/-! ## Failures -/

/-- The computation fails only in ways that satisfy `P`. -/
def FailsOnly (P : Failure → Prop) (x : Except Failure α) : Prop := ∀ f, x = .error f → P f

namespace FailsOnly

variable {P : Failure → Prop}

theorem ok (a : α) : FailsOnly P (.ok a : Except Failure α) := fun _ h => nomatch h

theorem pure (a : α) : FailsOnly P (Pure.pure a : Except Failure α) := ok a

theorem error {f : Failure} (h : P f) : FailsOnly P (.error f : Except Failure α) :=
  fun _ e => by cases e; exact h

theorem bind {x : Except Failure α} {f : α → Except Failure β} (hx : FailsOnly P x)
    (hf : ∀ a, x = .ok a → FailsOnly P (f a)) : FailsOnly P (x >>= f) := by
  cases x with
  | error e => exact fun e' h => hx e' (by cases h; rfl)
  | ok a => exact hf a rfl

theorem map {x : Except Failure α} (hx : FailsOnly P x) (g : α → β) : FailsOnly P (x.map g) := by
  cases x with
  | error e => exact fun e' h => hx e' (by cases h; rfl)
  | ok a => exact ok (g a)

theorem mapM {xs : List α} {f : α → Except Failure β} (h : ∀ a ∈ xs, FailsOnly P (f a)) :
    FailsOnly P (xs.mapM f) := by
  induction xs with
  | nil => exact pure []
  | cons x xs ih =>
      rw [List.mapM_cons]
      exact (h x List.mem_cons_self).bind fun _ _ =>
        (ih fun a ha => h a (List.mem_cons_of_mem x ha)).bind fun _ _ => pure _

theorem foldlM {xs : List α} {f : β → α → Except Failure β}
    (h : ∀ b, ∀ a ∈ xs, FailsOnly P (f b a)) (b : β) : FailsOnly P (xs.foldlM f b) := by
  induction xs generalizing b with
  | nil => exact pure b
  | cons x xs ih =>
      rw [List.foldlM_cons]
      exact (h b x List.mem_cons_self).bind fun b _ =>
        ih (fun b a ha => h b a (List.mem_cons_of_mem x ha)) b

end FailsOnly

/-! ## Calm computations -/

theorem calm_iff {x : Except Failure α} : Calm x ↔ isAborted x = false := by
  cases x with
  | error f => exact ⟨fun h => h f rfl, fun h _ e => by cases e; exact h⟩
  | ok a => exact iff_of_true (fun _ h => nomatch h) rfl

namespace Calm

theorem ok (a : α) : Calm (.ok a : Except Failure α) := FailsOnly.ok a

theorem pure (a : α) : Calm (Pure.pure a : Except Failure α) := ok a

theorem error {f : Failure} (h : f.isAbort = false) : Calm (.error f : Except Failure α) :=
  FailsOnly.error h

theorem bind {x : Except Failure α} {f : α → Except Failure β} (hx : Calm x)
    (hf : ∀ a, x = .ok a → Calm (f a)) : Calm (x >>= f) := FailsOnly.bind hx hf

theorem map {x : Except Failure α} (hx : Calm x) (g : α → β) : Calm (x.map g) := FailsOnly.map hx g

theorem mapM {xs : List α} {f : α → Except Failure β} (h : ∀ a ∈ xs, Calm (f a)) :
    Calm (xs.mapM f) := FailsOnly.mapM h

theorem foldlM {xs : List α} {f : β → α → Except Failure β} (h : ∀ b a, Calm (f b a)) (b : β) :
    Calm (xs.foldlM f b) := FailsOnly.foldlM (fun b a _ => h b a) b

/-- In front of a computation it makes no difference to what that needs. -/
theorem andThen {x : Except Failure α} {f : α → Except Failure β} (hx : Calm x)
    (hf : ∀ a, x = .ok a → Needs Q (f a)) : Needs Q (x >>= f) where
  needed b h := by
    obtain ⟨a, ha, hb⟩ := Outcome.bind_ok.mp h
    exact (hf a ha).needed b hb
  calm hq := hx.bind fun a ha => (hf a ha).calm hq

end Calm

/-! ## Needs -/

namespace Needs

theorem error {f : Failure} (h : f.isAbort = false) : Needs P (.error f : Except Failure α) :=
  ⟨fun _ e => (nomatch e), fun _ => .error h⟩

theorem iff {x : Except Failure α} (h : Needs P x) (hiff : P ↔ Q) : Needs Q x :=
  ⟨fun a ha => hiff.mp (h.needed a ha), fun hq => h.calm (hiff.mpr hq)⟩

theorem bind {x : Except Failure α} {f : α → Except Failure β} (hx : Needs P x)
    (hf : ∀ a, x = .ok a → Needs Q (f a)) : Needs (P ∧ Q) (x >>= f) where
  needed b h := by
    obtain ⟨a, ha, hb⟩ := Outcome.bind_ok.mp h
    exact ⟨hx.needed a ha, (hf a ha).needed b hb⟩
  calm h := (hx.calm h.1).bind fun a ha => (hf a ha).calm h.2

/-- Nothing more is needed if it goes on calmly. -/
theorem andThen {x : Except Failure α} {f : α → Except Failure β} (hx : Needs P x)
    (hf : ∀ a, x = .ok a → Calm (f a)) : Needs P (x >>= f) where
  needed b h := by
    obtain ⟨a, ha, _⟩ := Outcome.bind_ok.mp h
    exact hx.needed a ha
  calm hp := (hx.calm hp).bind hf

theorem map {x : Except Failure α} (hx : Needs P x) (g : α → β) : Needs P (g <$> x) where
  needed b h := by
    obtain ⟨a, ha, _⟩ := Outcome.map_ok.mp h
    exact hx.needed a ha
  calm hp := (hx.calm hp).map g

theorem mapM {xs : List α} {f : α → Except Failure β} {P : α → Prop}
    (h : ∀ a ∈ xs, Needs (P a) (f a)) : Needs (∀ a ∈ xs, P a) (xs.mapM f) where
  needed _ hys a ha := by
    obtain ⟨y, _, hy⟩ := Outcome.exists_of_mapM hys ha
    exact (h a ha).needed y hy
  calm hp := .mapM fun a ha => (h a ha).calm (hp a ha)

end Needs

end Graphwright
