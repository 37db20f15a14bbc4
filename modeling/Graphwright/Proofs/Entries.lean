import Graphwright.Entries
import Mathlib.Data.Finset.Card
import Mathlib.Data.List.Sort
import Mathlib.Data.String.Basic

/-!
# Lists of named values

Where an entry is replaced and where it is appended, and what is collected from entries, be their
names distinct or not.
-/
namespace Graphwright.Entries

variable {α : Type}

theorem put_append {name : String} {old new : α} {before after : List (String × α)}
    (h : name ∉ names before) :
    put name new (before ++ (name, old) :: after) = before ++ (name, new) :: after := by
  induction before with
  | nil => simp [put]
  | cons e before ih =>
      obtain ⟨k, x⟩ := e
      simp only [names, List.map_cons, List.mem_cons, not_or] at h
      rw [List.cons_append, put, if_neg (Ne.symm h.1), ih h.2]
      rfl

theorem exists_of_mem_names {name : String} {entries : List (String × α)}
    (h : name ∈ names entries) :
    ∃ before old after, entries = before ++ (name, old) :: after ∧ name ∉ names before := by
  induction entries with
  | nil => cases h
  | cons e rest ih =>
      obtain ⟨key, value⟩ := e
      by_cases hk : name = key
      · subst hk
        exact ⟨[], value, rest, rfl, List.not_mem_nil⟩
      · obtain ⟨before, old, after, rfl, hn⟩ := ih ((List.mem_cons.mp h).resolve_left hk)
        exact ⟨(key, value) :: before, old, after, rfl,
          fun hm => (List.mem_cons.mp hm).elim hk hn⟩

theorem put_of_not_mem {name : String} {value : α} {entries : List (String × α)}
    (h : name ∉ names entries) : put name value entries = entries ++ [(name, value)] := by
  induction entries with
  | nil => rfl
  | cons e rest ih =>
      obtain ⟨key, old⟩ := e
      simp only [names, List.map_cons, List.mem_cons, not_or] at h
      rw [put, if_neg (Ne.symm h.1), ih h.2, List.cons_append]

theorem put_put (name : String) (value old : α) (entries : List (String × α)) :
    put name value (put name old entries) = put name value entries := by
  induction entries with
  | nil => simp [put]
  | cons e rest ih =>
      obtain ⟨key, older⟩ := e
      by_cases hk : key = name
      · simp [put, hk]
      · simp [put, hk, ih]

theorem names_append (entries added : List (String × α)) :
    names (entries ++ added) = names entries ++ names added :=
  List.map_append

theorem not_mem_of_nodup {name : String} {value : α} {entries added : List (String × α)}
    (h : (names (entries ++ (name, value) :: added)).Nodup) : name ∉ names entries := by
  rw [names_append, List.nodup_append] at h
  exact fun hn => h.2.2 _ hn name List.mem_cons_self rfl

theorem foldl_put {entries added : List (String × α)} (h : (names (entries ++ added)).Nodup) :
    added.foldl (fun acc e => put e.1 e.2 acc) entries = entries ++ added := by
  induction added generalizing entries with
  | nil => simp
  | cons e added ih =>
      have hnew := not_mem_of_nodup h
      rw [List.append_cons] at h ⊢
      rw [List.foldl_cons, put_of_not_mem hnew, ih h]

/-- Entries under distinct names are collected as they are. -/
theorem collect_eq {entries : List (String × α)} (h : (names entries).Nodup) :
    collect entries = entries :=
  foldl_put h

/-- Leaving out entries under other names does not change what is under a name. -/
theorem get?_filter {name : String} {entries : List (String × α)} {p : String × α → Bool}
    (h : ∀ value, p (name, value) = true) : get? name (entries.filter p) = get? name entries := by
  induction entries with
  | nil => rfl
  | cons e entries ih =>
      obtain ⟨key, value⟩ := e
      by_cases hkey : key = name
      · subst hkey
        rw [List.filter_cons_of_pos (h value)]
        simp [get?]
      · by_cases hp : p (key, value)
        · rw [List.filter_cons_of_pos hp]
          simp [get?, hkey, ih]
        · rw [List.filter_cons_of_neg hp]
          simp [get?, hkey, ih]

theorem names_foldl_put (added entries : List (String × α)) :
    names (added.foldl (fun acc e => put e.1 e.2 acc) entries)
      = List.eraseDupsBy.loop (· == ·) (names added) (names entries).reverse := by
  induction added generalizing entries with
  | nil => simp [names, List.eraseDupsBy.loop]
  | cons e added ih =>
      have hcons : names (e :: added) = e.1 :: names added := rfl
      rw [List.foldl_cons, ih, names_put, hcons, List.eraseDupsBy.loop]
      by_cases h : e.1 ∈ names entries
      · have hany : (names entries).reverse.any (e.1 == ·) = true := by simpa using h
        rw [if_pos h, hany]
      · have hany : (names entries).reverse.any (e.1 == ·) = false := by
          rw [List.any_eq_false]
          intro name hname
          simpa using fun he : e.1 = name => h (he ▸ List.mem_reverse.mp hname)
        rw [if_neg h, hany, List.reverse_append]
        rfl

/-- Names come in the order in which they were first put. -/
theorem names_collect (entries : List (String × α)) :
    names (collect entries) = (names entries).eraseDups :=
  names_foldl_put entries []

theorem nodup_names_collect (entries : List (String × α)) : (names (collect entries)).Nodup := by
  suffices h : ∀ (added entries : List (String × α)), (names entries).Nodup →
      (names (added.foldl (fun acc e => put e.1 e.2 acc) entries)).Nodup from
    h entries [] .nil
  intro added
  induction added with
  | nil => exact fun _ h => h
  | cons e added ih => exact fun entries h => ih _ (nodup_names_put h)

theorem get?_eq_of_mem {name : String} {value : α} {entries : List (String × α)}
    (hn : (names entries).Nodup) (h : (name, value) ∈ entries) :
    get? name entries = some value := by
  induction entries with
  | nil => cases h
  | cons e rest ih =>
      obtain ⟨key, old⟩ := e
      simp only [names, List.map_cons, List.nodup_cons] at hn
      rcases List.mem_cons.mp h with e | h
      · cases e
        simp [get?]
      · have hk : key ≠ name := fun hk => hn.1 (hk ▸ List.mem_map_of_mem h)
        rw [get?, if_neg hk]
        exact ih hn.2 h

/-! ## Elements under distinct keys -/

section

variable {β κ : Type} [DecidableEq κ] {key : β → κ} {l : List β}

theorem filter_eq_singleton (h : (l.map key).Nodup) {a : β} (ha : a ∈ l) :
    l.filter (fun b => key b = key a) = [a] := by
  induction l with
  | nil => cases ha
  | cons b l ih =>
      rw [List.map_cons, List.nodup_cons] at h
      rcases List.mem_cons.mp ha with rfl | ha
      · have hrest : l.filter (fun b => key b = key a) = [] := by
          rw [List.filter_eq_nil_iff]
          intro b hb
          rw [decide_eq_true_eq]
          exact fun e => h.1 (List.mem_map.mpr ⟨b, hb, e⟩)
        rw [List.filter_cons_of_pos (by simp), hrest]
      · have hne : key b ≠ key a := fun e => h.1 (e ▸ List.mem_map_of_mem ha)
        rw [List.filter_cons_of_neg (by simpa using hne), ih h.2 ha]

theorem find?_of_nodup (h : (l.map key).Nodup) {a : β} (ha : a ∈ l) {k : κ} (hk : key a = k) :
    l.find? (key · = k) = some a := by
  subst hk
  rw [← List.head?_filter, filter_eq_singleton h ha]
  rfl

end

/-! ## Entries put one after another -/

/-- The value that comes last under a name. -/
def last? (name : String) (entries : List (String × α)) : Option α :=
  (entries.reverse.find? (·.1 = name)).map (·.2)

theorem last?_concat (name : String) (entries : List (String × α)) (e : String × α) :
    last? name (entries ++ [e]) = if e.1 = name then some e.2 else last? name entries := by
  rw [last?, List.reverse_append, List.reverse_singleton, List.singleton_append, List.find?_cons]
  by_cases h : e.1 = name
  · simp [h]
  · simp [h, last?]

theorem last?_eq_none_iff {name : String} {entries : List (String × α)} :
    last? name entries = none ↔ name ∉ names entries := by
  simp only [last?, Option.map_eq_none_iff, List.find?_eq_none, List.mem_reverse,
    decide_eq_true_eq, names, List.mem_map, not_exists, not_and]

theorem last?_append_cons {name : String} {value : α} {before after : List (String × α)}
    (h : name ∉ names after) : last? name (before ++ (name, value) :: after) = some value := by
  have hafter : after.reverse.find? (·.1 = name) = none := by
    simpa [last?] using last?_eq_none_iff.mpr h
  simp [last?, List.find?_append, hafter]

/-- Of several entries under one name the last one stays. -/
theorem get?_collect (name : String) (entries : List (String × α)) :
    get? name (collect entries) = last? name entries := by
  induction entries using List.reverseRecOn with
  | nil => rfl
  | append_singleton entries e ih =>
      have hput : collect (entries ++ [e]) = put e.1 e.2 (collect entries) := by
        rw [collect, List.foldl_append]
        rfl
      rw [hput, get?_put, ih, last?_concat]

/-- What comes of putting entries one after another: every name stands once, where it came first,
with the value that came last. -/
structure Replaces (entries result : List (String × α)) : Prop where
  nodup : (names result).Nodup
  order : names result = (names entries).eraseDups
  length : result.length = (names entries).toFinset.card
  get? : ∀ name, get? name result = last? name entries
  absent : ∀ name, name ∉ names entries → Entries.get? name result = none
  /-- No value that was replaced is left. -/
  mem : ∀ name value, (name, value) ∈ result ↔ last? name entries = some value

theorem replaces_collect (entries : List (String × α)) : Replaces entries (collect entries) where
  nodup := nodup_names_collect entries
  order := names_collect entries
  length := by
    have hset : (names (collect entries)).toFinset = (names entries).toFinset := by
      ext name
      rw [names_collect, List.mem_toFinset, List.mem_toFinset, List.mem_eraseDups]
    rw [← hset, List.toFinset_card_of_nodup (nodup_names_collect entries)]
    exact (List.length_map _).symm
  get? name := get?_collect name entries
  absent name h := (get?_collect name entries).trans (last?_eq_none_iff.mpr h)
  mem name value := by
    rw [← get?_collect]
    exact ⟨get?_eq_of_mem (nodup_names_collect entries), mem_of_get?⟩

/-- Whatever is written for an entry, it is written once for each name. -/
theorem Replaces.forall₂_map {β : Type} {entries result : List (String × α)}
    (h : Replaces entries result) (write : String × α → β) :
    List.Forall₂ (fun name piece => ∃ value, last? name entries = some value ∧
      piece = write (name, value)) (names entries).eraseDups (result.map write) := by
  rw [← h.order, names, List.forall₂_map_left_iff, List.forall₂_map_right_iff, List.forall₂_same]
  exact fun e he => ⟨e.2, (h.mem e.1 e.2).mp he, rfl⟩

/-! ## Names in order -/

theorem pairwise_insertKey {κ : Type} [DecidableEq κ] {before : κ → κ → Bool}
    (htrans : ∀ a b c, before a b = true → before b c = true → before a c = true)
    (htotal : ∀ a b, a ≠ b → before a b = true ∨ before b a = true) {key : κ} {keys : List κ}
    (h : keys.Pairwise (before · ·)) : (insertKey before key keys).Pairwise (before · ·) := by
  induction keys with
  | nil => simp [insertKey]
  | cons first keys ih =>
      obtain ⟨hfirst, hkeys⟩ := List.pairwise_cons.mp h
      rw [insertKey]
      by_cases he : first = key
      · rw [if_pos he]
        exact h
      · by_cases hlt : before key first = true
        · rw [if_neg he, if_pos hlt]
          exact List.pairwise_cons.mpr ⟨List.forall_mem_cons.mpr
            ⟨hlt, fun k hk => htrans key first k hlt (hfirst k hk)⟩, h⟩
        · rw [if_neg he, if_neg hlt]
          refine List.pairwise_cons.mpr ⟨fun k hk => ?_, ih hkeys⟩
          rcases mem_insertKey.mp hk with rfl | hk
          · exact (htotal first k he).resolve_right hlt
          · exact hfirst k hk

theorem pairwise_insertName {name : String} {names : List String} (h : names.Pairwise (· < ·)) :
    (insertName name names).Pairwise (· < ·) := by
  have htrans : ∀ a b c : String, decide (a < b) = true → decide (b < c) = true →
      decide (a < c) = true := fun a b c hab hbc =>
    decide_eq_true ((of_decide_eq_true hab).trans (of_decide_eq_true hbc))
  have htotal : ∀ a b : String, a ≠ b → decide (a < b) = true ∨ decide (b < a) = true :=
    fun a b hne => (lt_or_gt_of_ne hne).imp decide_eq_true decide_eq_true
  exact (pairwise_insertKey htrans htotal (h.imp decide_eq_true)).imp of_decide_eq_true

theorem pairwise_sortedNames (names : List String) : (sortedNames names).Pairwise (· < ·) := by
  suffices hfold : ∀ acc : List String, acc.Pairwise (· < ·) →
      (names.foldl (fun acc name => insertName name acc) acc).Pairwise (· < ·) from hfold [] .nil
  induction names with
  | nil => exact fun _ h => h
  | cons name names ih => exact fun acc h => ih _ (pairwise_insertName h)

/-- Only which names there are counts. -/
theorem sortedNames_congr {names names' : List String} (h : ∀ n, n ∈ names ↔ n ∈ names') :
    sortedNames names = sortedNames names' := by
  refine (pairwise_sortedNames names).eq_of_mem_iff (pairwise_sortedNames names') fun n => ?_
  rw [mem_sortedNames, mem_sortedNames, h n]

/-! ## Entries in order of name -/

theorem mem_putSorted {name : String} {value : α} {entries : List (String × α)} {e : String × α}
    (h : e ∈ putSorted name value entries) : e = (name, value) ∨ e ∈ entries := by
  induction entries with
  | nil => exact Or.inl (List.mem_singleton.mp h)
  | cons first rest ih =>
      obtain ⟨key, old⟩ := first
      rw [putSorted] at h
      split at h
      · rename_i hk
        exact (List.mem_cons.mp h).imp (hk ▸ ·) (List.mem_cons_of_mem _)
      · split at h
        · exact List.mem_cons.mp h
        · rcases List.mem_cons.mp h with rfl | h
          · exact Or.inr List.mem_cons_self
          · exact (ih h).imp_right (List.mem_cons_of_mem _)

/-- A name that is new goes between two entries. -/
theorem putSorted_of_not_mem {name : String} {value : α} {entries : List (String × α)}
    (h : name ∉ names entries) : ∃ before after, entries = before ++ after ∧
      putSorted name value entries = before ++ (name, value) :: after := by
  induction entries with
  | nil => exact ⟨[], [], rfl, rfl⟩
  | cons first rest ih =>
      obtain ⟨key, old⟩ := first
      simp only [names, List.map_cons, List.mem_cons, not_or] at h
      rw [putSorted, if_neg (Ne.symm h.1)]
      by_cases hlt : name < key
      · rw [if_pos hlt]
        exact ⟨[], _, rfl, rfl⟩
      · obtain ⟨before, after, hsplit, hput⟩ := ih h.2
        rw [if_neg hlt, hput, hsplit]
        exact ⟨(key, old) :: before, after, rfl, rfl⟩

theorem names_putSorted (name : String) (value : α) (entries : List (String × α)) :
    names (putSorted name value entries) = insertName name (names entries) := by
  induction entries with
  | nil => rfl
  | cons first rest ih =>
      obtain ⟨key, old⟩ := first
      simp only [names, putSorted, insertName, insertKey, List.map_cons, decide_eq_true_eq] at ih ⊢
      split
      · rfl
      · split
        · rfl
        · rw [List.map_cons, ih]

theorem mem_of_mem_sorted {entries : List (String × α)} {e : String × α}
    (h : e ∈ sorted entries) : e ∈ entries := by
  suffices hfold : ∀ (added acc : List (String × α)),
      e ∈ added.foldl (fun acc a => putSorted a.1 a.2 acc) acc →
        e ∈ acc ∨ e ∈ added from (hfold entries [] h).resolve_left List.not_mem_nil
  intro added
  induction added with
  | nil => exact fun acc h => Or.inl h
  | cons first added ih =>
      intro acc h
      rcases ih _ h with h | h
      · rcases mem_putSorted h with rfl | h
        · exact Or.inr List.mem_cons_self
        · exact Or.inl h
      · exact Or.inr (List.mem_cons_of_mem _ h)

/-- Sorting entries sorts their names. -/
theorem names_sorted (entries : List (String × α)) :
    names (sorted entries) = sortedNames (names entries) := by
  suffices hfold : ∀ acc : List (String × α),
      names (entries.foldl (fun acc e => putSorted e.1 e.2 acc) acc) =
        (names entries).foldl (fun acc name => insertName name acc) (names acc) from hfold []
  induction entries with
  | nil => exact fun _ => rfl
  | cons e entries ih =>
      intro acc
      rw [List.foldl_cons, ih, names_putSorted]
      rfl

theorem mem_names_sorted {entries : List (String × α)} {n : String} :
    n ∈ names (sorted entries) ↔ n ∈ names entries := by
  rw [names_sorted, mem_sortedNames]

theorem pairwise_sorted (entries : List (String × α)) : (sorted entries).Pairwise (·.1 < ·.1) := by
  refine List.pairwise_map.mp (?_ : (names (sorted entries)).Pairwise (· < ·))
  rw [names_sorted]
  exact pairwise_sortedNames _

/-- Entries are sorted as they are if there is one under each name. -/
theorem mem_sorted {entries : List (String × α)} {e : String × α}
    (h : ∀ a ∈ entries, ∀ b ∈ entries, a.1 = b.1 → a = b) : e ∈ sorted entries ↔ e ∈ entries := by
  refine ⟨mem_of_mem_sorted, fun he => ?_⟩
  obtain ⟨e', he', hname⟩ := List.mem_map.mp (mem_names_sorted.mpr (List.mem_map_of_mem he))
  rwa [← h e' (mem_of_mem_sorted he') e he hname]

/-- Sorting does not depend on the order before. -/
theorem sorted_perm {entries entries' : List (String × α)} (hperm : entries.Perm entries')
    (h : ∀ a ∈ entries, ∀ b ∈ entries, a.1 = b.1 → a = b) : sorted entries = sorted entries' := by
  have h' : ∀ a ∈ entries', ∀ b ∈ entries', a.1 = b.1 → a = b := fun a ha b hb =>
    h a (hperm.mem_iff.mpr ha) b (hperm.mem_iff.mpr hb)
  refine List.Pairwise.eq_of_mem_iff (pairwise_sorted entries) (pairwise_sorted entries') fun e => ?_
  rw [mem_sorted h, mem_sorted h', hperm.mem_iff]

end Graphwright.Entries
