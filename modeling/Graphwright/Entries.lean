/-!
Lists of named values. `put` keeps the order in which names first came, `putSorted` the order of
the names; both replace a value in place. `insertKey` keeps keys without values in order. Main
statements: the names stay distinct, and looking a name up gives the value put last.
-/
namespace Graphwright.Entries

variable {α : Type}

def names (entries : List (String × α)) : List String := entries.map (·.1)

/-- The value under `name`. -/
def get? (name : String) : List (String × α) → Option α
  | [] => none
  | (key, value) :: rest => if key = name then some value else get? name rest

/-- Replaces the value under `name`, or appends it. -/
def put (name : String) (value : α) : List (String × α) → List (String × α)
  | [] => [(name, value)]
  | (key, old) :: rest =>
    if key = name then (key, value) :: rest else (key, old) :: put name value rest

/-- Replaces the value under `name`, or inserts it in front of the first greater name. -/
def putSorted (name : String) (value : α) : List (String × α) → List (String × α)
  | [] => [(name, value)]
  | (key, old) :: rest =>
    if key = name then (key, value) :: rest
    else if name < key then (name, value) :: (key, old) :: rest
    else (key, old) :: putSorted name value rest

/-- The entries in order of name; of several under one name the last counts. -/
def sorted (entries : List (String × α)) : List (String × α) :=
  entries.foldl (fun acc (name, value) => putSorted name value acc) []

/-- The entries in order of first appearance; of several under one name the last value counts. -/
def collect (entries : List (String × α)) : List (String × α) :=
  entries.foldl (fun acc (name, value) => put name value acc) []

/-- Inserts a key in front of the first one that it comes before, unless it is there. -/
def insertKey {κ : Type} [DecidableEq κ] (before : κ → κ → Bool) (key : κ) : List κ → List κ
  | [] => [key]
  | k :: keys =>
    if k = key then k :: keys
    else if before key k then key :: k :: keys
    else k :: insertKey before key keys

def insertName (name : String) (names : List String) : List String :=
  insertKey (fun a b => a < b) name names

/-- The names in order, each once. -/
def sortedNames (names : List String) : List String :=
  names.foldl (fun acc name => insertName name acc) []

theorem get?_put (name key : String) (value : α) (entries : List (String × α)) :
    get? name (put key value entries) = if key = name then some value else get? name entries := by
  induction entries with
  | nil => simp [put, get?]
  | cons e rest ih =>
    obtain ⟨k, v⟩ := e
    simp only [put]
    split <;> simp only [get?] <;> grind

theorem names_put (key : String) (value : α) (entries : List (String × α)) :
    names (put key value entries)
      = if key ∈ names entries then names entries else names entries ++ [key] := by
  induction entries with
  | nil => simp [put, names]
  | cons e rest ih =>
    obtain ⟨k, v⟩ := e
    simp only [put, names] at ih ⊢
    split
    · simp_all
    · simp_all
      grind

theorem nodup_concat {α : Type} {l : List α} {a : α} (h : l.Nodup) (ha : a ∉ l) :
    (l ++ [a]).Nodup := by
  rw [List.nodup_append]
  exact ⟨h, by simp, fun b hb c hc e => ha (List.mem_singleton.mp hc ▸ e ▸ hb)⟩

theorem nodup_names_put {key : String} {value : α} {entries : List (String × α)}
    (h : (names entries).Nodup) : (names (put key value entries)).Nodup := by
  rw [names_put]
  split
  · exact h
  · exact nodup_concat h ‹_›

theorem mem_put {name : String} {value : α} {entries : List (String × α)} {e : String × α}
    (h : e ∈ put name value entries) : e = (name, value) ∨ e ∈ entries := by
  induction entries with
  | nil => simpa [put] using h
  | cons first rest ih =>
    obtain ⟨key, old⟩ := first
    simp only [put] at h
    split at h
    · rename_i hk
      subst hk
      exact (List.mem_cons.mp h).imp_right (List.mem_cons_of_mem _)
    · rcases List.mem_cons.mp h with rfl | h
      · exact .inr List.mem_cons_self
      · exact (ih h).imp_right (List.mem_cons_of_mem _)

theorem get?_eq_none_iff {name : String} {entries : List (String × α)} :
    get? name entries = none ↔ name ∉ names entries := by
  induction entries with
  | nil => simp [get?, names]
  | cons e rest ih =>
    obtain ⟨k, v⟩ := e
    simp only [get?, names, List.map_cons, List.mem_cons, not_or] at ih ⊢
    split
    · simp_all
    · rename_i h; rw [ih]; simp [Ne.symm h]

theorem mem_of_get? {name : String} {value : α} {entries : List (String × α)}
    (h : get? name entries = some value) : (name, value) ∈ entries := by
  induction entries with
  | nil => simp [get?] at h
  | cons e rest ih =>
    obtain ⟨k, v⟩ := e
    simp only [get?] at h
    split at h
    · rename_i hk; simp only [Option.some.injEq] at h; simp [hk, h]
    · exact List.mem_cons_of_mem _ (ih h)

theorem mem_insertKey {κ : Type} [DecidableEq κ] {before : κ → κ → Bool} {key k : κ}
    {keys : List κ} : k ∈ insertKey before key keys ↔ k = key ∨ k ∈ keys := by
  induction keys with
  | nil => simp [insertKey]
  | cons first keys ih =>
    rw [insertKey]
    split
    · rename_i h
      simp [h]
    · split
      · simp
      · rw [List.mem_cons, ih, List.mem_cons, or_left_comm]

theorem mem_sortedNames {names : List String} {n : String} : n ∈ sortedNames names ↔ n ∈ names := by
  suffices hfold : ∀ acc, n ∈ names.foldl (fun acc name => insertName name acc) acc ↔
      n ∈ acc ∨ n ∈ names from (hfold []).trans (or_iff_right List.not_mem_nil)
  induction names with
  | nil => simp
  | cons name names ih =>
    intro acc
    rw [List.foldl_cons, ih, insertName, mem_insertKey, List.mem_cons, or_comm (a := n = name),
      or_assoc]

theorem mem_names_of_get? {name : String} {value : α} {entries : List (String × α)}
    (h : get? name entries = some value) : name ∈ names entries :=
  List.mem_map.mpr ⟨_, mem_of_get? h, rfl⟩

end Graphwright.Entries
