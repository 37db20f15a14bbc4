/-!
# Written forms that can be told apart

A way of writing values as text is unambiguous at a value if the value can be read back from its
written form, whatever text follows. What may follow is restricted, since a name that runs into
another name cannot be told from a longer one. The lemmas say how words, and sequences of items up
to a closing text, inherit this from their parts.
-/
namespace Graphwright.Text

/-- The text does not go on with a character of the class. -/
def Stops (p : Char → Bool) (s : List Char) : Prop := ∀ c u, s = c :: u → p c = false

theorem Stops.nil {p : Char → Bool} : Stops p [] := fun _ _ h => nomatch h

theorem Stops.cons {p : Char → Bool} {c : Char} (h : p c = false) (u : List Char) :
    Stops p (c :: u) := by
  intro d v e
  cases e
  exact h

/-- A word ends where its class of characters does. -/
theorem word_append_inj {p : Char → Bool} {xs ys s t : List Char} (hx : ∀ c ∈ xs, p c = true)
    (hy : ∀ c ∈ ys, p c = true) (hs : Stops p s) (ht : Stops p t) (h : xs ++ s = ys ++ t) :
    xs = ys ∧ s = t := by
  induction xs generalizing ys with
  | nil =>
      cases ys with
      | nil => exact ⟨rfl, h⟩
      | cons y ys =>
          have hp := hs y (ys ++ t) h
          rw [hy y (by simp)] at hp
          cases hp
  | cons x xs ih =>
      cases ys with
      | nil =>
          have hp := ht x (xs ++ s) h.symm
          rw [hx x (by simp)] at hp
          cases hp
      | cons y ys =>
          simp only [List.cons_append, List.cons.injEq] at h
          obtain ⟨rfl, h⟩ := h
          obtain ⟨rfl, hst⟩ :=
            ih (fun c hc => hx c (by simp [hc])) (fun c hc => hy c (by simp [hc])) h
          exact ⟨rfl, hst⟩

section

variable {α : Type} {write : α → List Char} {good : α → Prop} {follow : List Char → Prop}

/-- What is written for `a` is written for no other good value, whatever follows the two. -/
def ReadsBack (write : α → List Char) (good : α → Prop) (follow : List Char → Prop) (a : α) :
    Prop :=
  ∀ b s t, good b → follow s → follow t → write a ++ s = write b ++ t → a = b ∧ s = t

/-- A reader that undoes the writing shows that written forms can be told apart. -/
theorem ReadsBack.of_reader {read : List Char → Option (α × List Char)}
    (h : ∀ a s, good a → follow s → read (write a ++ s) = some (a, s)) {a : α} (ha : good a) :
    ReadsBack write good follow a := by
  intro b s t hb hs ht e
  have hr := h a s ha hs
  rw [e, h b t hb ht] at hr
  cases hr
  exact ⟨rfl, rfl⟩

/-- A sequence of items is read back up to a closing text, which is never taken for an item. -/
theorem readsBack_flatMap {close : List Char}
    (hclose : ∀ a s t, good a → write a ++ s ≠ close ++ t)
    (hfollow : ∀ a s, good a → follow (write a ++ s)) (hend : ∀ s, follow (close ++ s))
    {as : List α} (hread : ∀ a ∈ as, ReadsBack write good follow a) (has : ∀ a ∈ as, good a) :
    ReadsBack (fun as => as.flatMap write ++ close) (fun bs => ∀ b ∈ bs, good b)
      (fun _ => True) as := by
  -- What stands behind an item is the next item or the closing text.
  have hnext : ∀ (cs : List α) (u : List Char), (∀ c ∈ cs, good c) →
      follow (cs.flatMap write ++ close ++ u) := by
    intro cs u hcs
    cases cs with
    | nil => exact hend u
    | cons c cs =>
        simp only [List.flatMap_cons, List.append_assoc]
        exact hfollow c _ (hcs c (by simp))
  intro bs s t hbs _ _ h
  dsimp only at h
  induction as generalizing bs with
  | nil =>
      cases bs with
      | nil => exact ⟨rfl, List.append_cancel_left h⟩
      | cons b bs =>
          simp only [List.flatMap_nil, List.nil_append, List.flatMap_cons, List.append_assoc] at h
          exact absurd h.symm (hclose b _ _ (hbs b (by simp)))
  | cons a as ih =>
      cases bs with
      | nil =>
          simp only [List.flatMap_nil, List.nil_append, List.flatMap_cons, List.append_assoc] at h
          exact absurd h (hclose a _ _ (has a (by simp)))
      | cons b bs =>
          have hgas : ∀ c ∈ as, good c := fun c hc => has c (by simp [hc])
          have hgbs : ∀ c ∈ bs, good c := fun c hc => hbs c (by simp [hc])
          have h' : write a ++ (as.flatMap write ++ close ++ s)
              = write b ++ (bs.flatMap write ++ close ++ t) := by
            simpa only [List.flatMap_cons, List.append_assoc] using h
          obtain ⟨rfl, hrest⟩ := hread a (by simp) b _ _ (hbs b (by simp)) (hnext as s hgas)
            (hnext bs t hgbs) h'
          obtain ⟨rfl, hst⟩ := ih (fun c hc => hread c (by simp [hc])) hgas bs hgbs hrest
          exact ⟨rfl, hst⟩

/-- Items with a separator between them. -/
def separated (sep : List Char) (write : α → List Char) : List α → List Char
  | [] => []
  | a :: as => write a ++ as.flatMap fun b => sep ++ write b

theorem separated_map {β : Type} (sep : List Char) (write : β → List Char) (f : α → β)
    (as : List α) : separated sep write (as.map f) = separated sep (write ∘ f) as := by
  cases as with
  | nil => rfl
  | cons a as =>
      simp only [List.map_cons, separated, List.flatMap_map]
      rfl

/-- A separated sequence is read back up to a closing text, which starts neither as an item nor as
the separator does. -/
theorem readsBack_separated {sep close : List Char}
    (hclose : ∀ a s t, good a → write a ++ s ≠ close ++ t) (hsep : ∀ s t, sep ++ s ≠ close ++ t)
    (hfollow : ∀ s, follow (sep ++ s)) (hend : ∀ s, follow (close ++ s))
    {as : List α} (hread : ∀ a ∈ as, ReadsBack write good follow a) (has : ∀ a ∈ as, good a) :
    ReadsBack (fun as => separated sep write as ++ close) (fun bs => ∀ b ∈ bs, good b)
      (fun _ => True) as := by
  intro bs s t hbs _ _ h
  cases as with
  | nil =>
      cases bs with
      | nil => exact ⟨rfl, List.append_cancel_left h⟩
      | cons b bs =>
          simp only [separated, List.nil_append, List.append_assoc] at h
          exact absurd h.symm (hclose b _ _ (hbs b (by simp)))
  | cons a as =>
      cases bs with
      | nil =>
          simp only [separated, List.nil_append, List.append_assoc] at h
          exact absurd h (hclose a _ _ (has a (by simp)))
      | cons b bs =>
          have hnext : ∀ (cs : List α) (u : List Char),
              follow ((cs.flatMap fun b => sep ++ write b) ++ close ++ u) := by
            intro cs u
            cases cs with
            | nil => exact hend u
            | cons c cs =>
                simp only [List.flatMap_cons, List.append_assoc]
                exact hfollow _
          have h' : write a ++ ((as.flatMap fun b => sep ++ write b) ++ close ++ s)
              = write b ++ ((bs.flatMap fun b => sep ++ write b) ++ close ++ t) := by
            simpa only [separated, List.append_assoc] using h
          obtain ⟨rfl, hrest⟩ := hread a (by simp) b _ _ (hbs b (by simp)) (hnext as s)
            (hnext bs t) h'
          -- The other items are told apart behind their separators.
          have hitem : ∀ c ∈ as, ReadsBack (fun b => sep ++ write b) good follow c := by
            intro c hc d u v hd hu hv e
            simp only [List.append_assoc] at e
            exact hread c (by simp [hc]) d u v hd hu hv (List.append_cancel_left e)
          obtain ⟨rfl, hst⟩ := readsBack_flatMap
            (fun c u v _ => by simpa only [List.append_assoc] using hsep (write c ++ u) v)
            (fun c u _ => by simpa only [List.append_assoc] using hfollow (write c ++ u)) hend hitem
            (fun c hc => has c (by simp [hc])) bs s t (fun c hc => hbs c (by simp [hc])) trivial
            trivial hrest
          exact ⟨rfl, hst⟩

end

/-- The text of a separated sequence, where each item has one. -/
theorem toList_intercalate {α : Type} (sep : String) (write : α → String) (as : List α) :
    (sep.intercalate (as.map write)).toList
      = separated sep.toList (fun a => (write a).toList) as := by
  cases as with
  | nil => simp [separated]
  | cons a as =>
      simp only [List.map_cons, separated]
      induction as generalizing a with
      | nil => simp
      | cons b as ih =>
          simp only [List.map_cons, String.intercalate_cons_cons, String.toList_append, ih,
            List.flatMap_cons, List.append_assoc]

end Graphwright.Text
