import Mathlib.Data.List.Forall2
import Mathlib.Data.List.Perm.Basic

/-!
# What a success went through

A computation that may fail succeeds only if each of its steps does. These lemmas take a success
apart into the successes of its steps.
-/
namespace Graphwright.Outcome

variable {ε α β : Type}

theorem bind_ok {x : Except ε α} {f : α → Except ε β} {b : β} :
    x >>= f = .ok b ↔ ∃ a, x = .ok a ∧ f a = .ok b := by
  cases x with
  | error e => exact ⟨fun h => (nomatch h), fun ⟨_, h, _⟩ => (nomatch h)⟩
  | ok a =>
      constructor
      · intro h; exact ⟨a, rfl, h⟩
      · rintro ⟨_, h, hf⟩; cases h; exact hf

theorem pure_ok {a b : α} : (pure a : Except ε α) = .ok b ↔ a = b :=
  ⟨fun h => by cases h; rfl, fun h => h ▸ rfl⟩

theorem map_ok {x : Except ε α} {f : α → β} {b : β} :
    f <$> x = .ok b ↔ ∃ a, x = .ok a ∧ f a = b := by
  cases x with
  | error e => exact ⟨fun h => (nomatch h), fun ⟨_, h, _⟩ => (nomatch h)⟩
  | ok a =>
      constructor
      · intro h; cases h; exact ⟨a, rfl, rfl⟩
      · rintro ⟨_, h, rfl⟩; cases h; rfl

theorem bind_error {x : Except ε α} {f : α → Except ε β} {e : ε} :
    x >>= f = .error e ↔ x = .error e ∨ ∃ a, x = .ok a ∧ f a = .error e := by
  cases x with
  | error e' =>
      constructor
      · intro h; cases h; exact .inl rfl
      · rintro (h | ⟨_, h, _⟩) <;> cases h; rfl
  | ok a =>
      constructor
      · intro h; exact .inr ⟨a, rfl, h⟩
      · rintro (h | ⟨_, h, hf⟩) <;> cases h; exact hf

theorem map_error {x : Except ε α} {f : α → β} {e : ε} : f <$> x = .error e ↔ x = .error e := by
  cases x with
  | error e' => exact ⟨fun h => by cases h; rfl, fun h => by cases h; rfl⟩
  | ok a => exact ⟨fun h => (nomatch h), fun h => (nomatch h)⟩

theorem ok_bind {a : α} {k : α → Except ε β} : (Except.ok a : Except ε α) >>= k = k a := rfl

theorem bind_map {γ : Type} {x : Except ε α} {g : α → β} {k : β → Except ε γ} :
    x.map g >>= k = x >>= fun a => k (g a) := by
  cases x <;> rfl

theorem map_bind {γ : Type} {x : Except ε α} {k : α → Except ε β} {g : β → γ} :
    (x >>= k).map g = x >>= fun a => (k a).map g := by
  cases x <;> rfl

/-- Only what follows a success counts. -/
theorem bind_congr {x : Except ε α} {k k' : α → Except ε β} (h : ∀ a, x = .ok a → k a = k' a) :
    x >>= k = x >>= k' := by
  cases x with
  | error e => rfl
  | ok a => exact h a rfl

theorem mapError_ok {ε' : Type} {f : ε → ε'} {x : Except ε α} {a : α} :
    x.mapError f = .ok a ↔ x = .ok a := by
  cases x with
  | error e => exact ⟨fun h => (nomatch h), fun h => (nomatch h)⟩
  | ok a' => exact ⟨fun h => by cases h; rfl, fun h => by cases h; rfl⟩

theorem mapM_ok {f : α → Except ε β} {xs : List α} {ys : List β} :
    xs.mapM f = .ok ys ↔ List.Forall₂ (fun x y => f x = .ok y) xs ys := by
  induction xs generalizing ys with
  | nil =>
      rw [List.mapM_nil, pure_ok]
      constructor
      · rintro rfl; exact .nil
      · intro h; cases h; rfl
  | cons x xs ih =>
      simp only [List.mapM_cons, bind_ok, pure_ok]
      constructor
      · rintro ⟨y, hy, zs, hzs, rfl⟩
        exact .cons hy (ih.mp hzs)
      · intro h
        cases h with
        | cons hy hzs => exact ⟨_, hy, _, ih.mpr hzs, rfl⟩

theorem mapM_map {γ : Type} {f : α → Except ε β} {g : β → γ} {xs : List α} :
    xs.mapM (fun x => (f x).map g) = (xs.mapM f).map (List.map g) := by
  induction xs with
  | nil => rfl
  | cons x xs ih =>
      simp only [List.mapM_cons, ih, bind_map, map_bind]
      exact bind_congr fun y _ => bind_congr fun ys _ => rfl

theorem mapM_congr {f g : α → Except ε β} {xs : List α} (h : ∀ x ∈ xs, f x = g x) :
    xs.mapM f = xs.mapM g := by
  induction xs with
  | nil => rfl
  | cons x xs ih =>
      obtain ⟨hx, hxs⟩ := List.forall_mem_cons.mp h
      rw [List.mapM_cons, List.mapM_cons, hx, ih hxs]

theorem exists_forall₂ {R : α → β → Prop} {xs : List α} (h : ∀ x ∈ xs, ∃ y, R x y) :
    ∃ ys, List.Forall₂ R xs ys := by
  induction xs with
  | nil => exact ⟨[], .nil⟩
  | cons x xs ih =>
      obtain ⟨y, hy⟩ := h x List.mem_cons_self
      obtain ⟨ys, hys⟩ := ih fun x hx => h x (List.mem_cons_of_mem _ hx)
      exact ⟨y :: ys, .cons hy hys⟩

/-- A relation through a function leads to a list of what the function is applied to. -/
theorem exists_forall₂_map {γ : Type} {R : α → γ → Prop} {f : γ → β} {xs : List α} {ys : List β}
    (h : List.Forall₂ (fun x y => ∃ z, R x z ∧ y = f z) xs ys) :
    ∃ zs, List.Forall₂ R xs zs ∧ ys = zs.map f := by
  induction h with
  | nil => exact ⟨[], .nil, rfl⟩
  | cons hxy _ ih =>
      obtain ⟨z, hz, rfl⟩ := hxy
      obtain ⟨zs, hzs, rfl⟩ := ih
      exact ⟨z :: zs, .cons hz hzs, rfl⟩

theorem exists_mapM {f : α → Except ε β} {xs : List α} (h : ∀ x ∈ xs, ∃ y, f x = .ok y) :
    ∃ ys, xs.mapM f = .ok ys := by
  obtain ⟨ys, hys⟩ := exists_forall₂ h
  exact ⟨ys, mapM_ok.mpr hys⟩

/-- The computation succeeds, and what it gives passes a test. -/
def any (x : Except ε α) (p : α → Bool) : Bool :=
  match x with
  | .ok a => p a
  | .error _ => false

theorem any_eq_true {x : Except ε α} {p : α → Bool} :
    any x p = true ↔ ∃ a, x = .ok a ∧ p a = true := by
  cases x with
  | error e => simp [any]
  | ok a => simp [any]

/-- The computation fails in this very way. -/
def failsWith [DecidableEq ε] (x : Except ε α) (e : ε) : Bool :=
  match x with
  | .ok _ => false
  | .error e' => e' = e

theorem failsWith_eq_true [DecidableEq ε] {x : Except ε α} {e : ε} :
    failsWith x e = true ↔ x = .error e := by
  cases x with
  | error e' => simp [failsWith]
  | ok a => simp [failsWith]

/-- What a computation that succeeds gives. -/
def get (x : Except ε α) (h : x.isOk = true) : { a // x = .ok a } :=
  match x, h with
  | .ok a, _ => ⟨a, rfl⟩

theorem exists_of_isOk {x : Except ε α} (h : x.isOk = true) : ∃ a, x = .ok a := by
  cases x with
  | error e => cases h
  | ok a => exact ⟨a, rfl⟩

/-- The last step of a loop. -/
theorem foldlM_concat_ok {step : β → α → Except ε β} {xs : List α} {x : α} {b c : β} :
    (xs ++ [x]).foldlM step b = .ok c ↔ ∃ a, xs.foldlM step b = .ok a ∧ step a x = .ok c := by
  rw [List.foldlM_append, bind_ok]
  simp only [List.foldlM_cons, List.foldlM_nil, bind_pure]

/-- What every step of a loop preserves holds in the end. -/
theorem foldlM_ok_of_mem {step : β → α → Except ε β} {P : β → Prop} {xs : List α} {b b' : β}
    (hstep : ∀ b, ∀ a ∈ xs, ∀ b', P b → step b a = .ok b' → P b') (hb : P b)
    (h : xs.foldlM step b = .ok b') : P b' := by
  induction xs generalizing b with
  | nil =>
      rw [List.foldlM_nil, pure_ok] at h
      exact h ▸ hb
  | cons x xs ih =>
      rw [List.foldlM_cons, bind_ok] at h
      obtain ⟨c, hc, h⟩ := h
      exact ih (fun b a ha => hstep b a (List.mem_cons_of_mem x ha))
        (hstep b x (List.mem_cons_self ..) c hb hc) h

theorem foldlM_ok {step : β → α → Except ε β} {P : β → Prop}
    (hstep : ∀ b a b', P b → step b a = .ok b' → P b') {xs : List α} {b b' : β} (hb : P b)
    (h : xs.foldlM step b = .ok b') : P b' :=
  foldlM_ok_of_mem (fun b a _ b' => hstep b a b') hb h

/-- A loop whose steps follow those of another one follows it to the end. -/
theorem foldlM_map {γ δ : Type} {step : β → α → Except ε β} {step' : γ → δ → Except ε γ} {g : β → γ}
    {k : α → δ} (h : ∀ b a, step' (g b) (k a) = (step b a).map g) (xs : List α) (b : β) :
    (xs.map k).foldlM step' (g b) = (xs.foldlM step b).map g := by
  induction xs generalizing b with
  | nil => rfl
  | cons x xs ih =>
      rw [List.map_cons, List.foldlM_cons, List.foldlM_cons, h, bind_map, map_bind]
      exact bind_congr fun c _ => ih c

theorem mem_of_forall₂ {R : α → β → Prop} {xs : List α} {ys : List β} (h : List.Forall₂ R xs ys) :
    ∀ x ∈ xs, ∃ y ∈ ys, R x y := by
  induction h with
  | nil => simp
  | cons hR _ ih =>
      intro x hx
      rcases List.mem_cons.mp hx with rfl | hx
      · exact ⟨_, by simp, hR⟩
      · obtain ⟨y, hy, hxy⟩ := ih x hx
        exact ⟨y, by simp [hy], hxy⟩

theorem mem_of_forall₂' {R : α → β → Prop} {xs : List α} {ys : List β} (h : List.Forall₂ R xs ys) :
    ∀ y ∈ ys, ∃ x ∈ xs, R x y := by
  induction h with
  | nil => simp
  | cons hR _ ih =>
      intro y hy
      rcases List.mem_cons.mp hy with rfl | hy
      · exact ⟨_, by simp, hR⟩
      · obtain ⟨x, hx, hxy⟩ := ih y hy
        exact ⟨x, by simp [hx], hxy⟩

theorem forall_mem_of_forall₂ {R : α → β → Prop} {P : α → Prop} {xs : List α} {ys : List β}
    (h : List.Forall₂ R xs ys) (hR : ∀ x, ∀ y ∈ ys, R x y → P x) : ∀ x ∈ xs, P x := by
  intro x hx
  obtain ⟨y, hy, hxy⟩ := mem_of_forall₂ h x hx
  exact hR x y hy hxy

/-- Related elements that are mapped alike are mapped to one list. -/
theorem map_eq_of_forall₂ {γ : Type} {R : α → β → Prop} {f : α → γ} {g : β → γ} {xs : List α}
    {ys : List β} (h : List.Forall₂ R xs ys) (hR : ∀ x ∈ xs, ∀ y, R x y → f x = g y) :
    xs.map f = ys.map g := by
  induction h with
  | nil => rfl
  | cons hxy _ ih =>
      obtain ⟨hx, hxs⟩ := List.forall_mem_cons.mp hR
      rw [List.map_cons, List.map_cons, hx _ hxy, ih hxs]

/-- Lists that are both related to a third one are related through it. -/
theorem forall₂_of_common {γ : Type} {R : α → γ → Prop} {S : β → γ → Prop} {xs : List α}
    {ys : List β} {zs : List γ} (hR : List.Forall₂ R xs zs) (hS : List.Forall₂ S ys zs) :
    List.Forall₂ (fun x y => ∃ z, R x z ∧ S y z) xs ys := by
  induction hR generalizing ys with
  | nil =>
      cases hS
      exact .nil
  | cons hxz _ ih =>
      cases hS with
      | cons hyz hS => exact .cons ⟨_, hxz, hyz⟩ (ih hS)

/-- What holds of related elements alike holds of all the ones exactly if of all the others. -/
theorem forall_mem_iff_of_forall₂ {R : α → β → Prop} {P : α → Prop} {Q : β → Prop} {xs : List α}
    {ys : List β} (h : List.Forall₂ R xs ys) (hR : ∀ x, ∀ y ∈ ys, R x y → (P x ↔ Q y)) :
    (∀ x ∈ xs, P x) ↔ ∀ y ∈ ys, Q y := by
  induction h with
  | nil => simp
  | @cons x y xs ys hxy _ ih =>
      rw [List.forall_mem_cons, List.forall_mem_cons, hR x y List.mem_cons_self hxy,
        ih fun x y hy => hR x y (List.mem_cons_of_mem _ hy)]

theorem exists_of_mapM {f : α → Except ε β} {xs : List α} {ys : List β}
    (h : xs.mapM f = .ok ys) {x : α} (hx : x ∈ xs) : ∃ y ∈ ys, f x = .ok y :=
  mem_of_forall₂ (mapM_ok.mp h) x hx

theorem map_eq_of_mapM {γ : Type} {f : α → Except ε β} {g : β → γ} {k : α → γ} {xs : List α}
    {ys : List β} (h : xs.mapM f = .ok ys) (hg : ∀ x ∈ xs, ∀ y, f x = .ok y → g y = k x) :
    ys.map g = xs.map k :=
  (map_eq_of_forall₂ (mapM_ok.mp h) fun x hx y hy => (hg x hx y hy).symm).symm

theorem mem_mapM {f : α → Except ε β} {xs : List α} {ys : List β} (h : xs.mapM f = .ok ys)
    {y : β} : y ∈ ys ↔ ∃ x ∈ xs, f x = .ok y := by
  constructor
  · exact mem_of_forall₂' (mapM_ok.mp h) y
  · rintro ⟨x, hx, hy⟩
    obtain ⟨y', hmem, hy'⟩ := exists_of_mapM h hx
    cases hy.symm.trans hy'
    exact hmem

/-- The order of the steps of a loop is the order of their results. -/
theorem mapM_perm {f : α → Except ε β} {xs xs' : List α} {ys : List β} (hperm : xs.Perm xs')
    (h : xs.mapM f = .ok ys) : ∃ ys', xs'.mapM f = .ok ys' ∧ ys.Perm ys' := by
  obtain ⟨ys', hall, hys⟩ := List.perm_comp_forall₂ hperm.symm (mapM_ok.mp h)
  exact ⟨ys', mapM_ok.mpr hall, hys.symm⟩

/-- Both computations succeed, with results that are related, or neither does. -/
def Agree (R : α → β → Prop) : Except ε α → Except ε β → Prop
  | .ok a, .ok b => R a b
  | .error _, .error _ => True
  | _, _ => False

theorem agree_iff {R : α → β → Prop} {x : Except ε α} {y : Except ε β} : Agree R x y ↔
    (∀ a, x = .ok a → ∃ b, y = .ok b ∧ R a b) ∧ ∀ b, y = .ok b → ∃ a, x = .ok a ∧ R a b := by
  cases x <;> cases y <;> simp [Agree]

end Graphwright.Outcome
