import Graphwright.Proofs.Outcome
import Graphwright.Rust.Rendering
import Mathlib.Data.List.Nodup

/-!
# What a table of imports knows

A path is spelled by its last segment if it is imported, and else in full; only the item that a file
defines is spelled by its name without being imported. The names of imported paths differ from each
other and from all names that the table starts with. A path whose last segment could be imported is
spelled in full only if that name was taken.
-/
namespace Graphwright.Rust

/-! ## Segments -/

theorem eq_plain_of_pathSegment? {segment : String} {i : Ident}
    (h : pathSegment? segment = some i) : i = .plain segment := by
  unfold pathSegment? at h
  dsimp only at h
  split at h
  · cases h; rfl
  · cases h

theorem eq_map_plain {segments : List String} {idents : List Ident}
    (h : segments.mapM pathSegment? = some idents) : idents = segments.map .plain := by
  induction segments generalizing idents with
  | nil => cases h; rfl
  | cons segment segments ih =>
      rw [List.mapM_cons] at h
      obtain ⟨i, hi, h⟩ := Option.bind_eq_some_iff.mp h
      obtain ⟨is, his, h⟩ := Option.bind_eq_some_iff.mp h
      cases h
      rw [eq_plain_of_pathSegment? hi, ih his, List.map_cons]

/-- What an imported path brings into scope is its importable last segment. -/
theorem getLast?_of_path? {path tail : String} {segments : List Ident}
    (hp : path? path = some segments) (ht : importableTail? path = some tail) :
    segments.getLast? = some (.plain tail) := by
  obtain ⟨names, hnames, hp⟩ := Option.bind_eq_some_iff.mp hp
  obtain ⟨names', hnames', ht⟩ := Option.bind_eq_some_iff.mp ht
  cases hnames.symm.trans hnames'
  rw [eq_map_plain hp, List.getLast?_map, ht]
  rfl

/-- A text that is read as a type stays as it is. -/
theorem eq_verbatim_of_ofText? {text : String} {type : Ty} (h : TypeText.ofText? text = some type) :
    ∃ form tokens, type = .verbatim form tokens := by
  obtain ⟨tokens, _, h⟩ := Option.bind_eq_some_iff.mp h
  unfold TypeText.ofTokens? at h
  split at h
  · cases h
    exact ⟨_, _, rfl⟩
  · cases h

namespace Imports

/-! ## Paths that become known -/

/-- The table started with the names in `base` and the spelling of `ownPath`, and has imported
`paths` since. -/
structure Tracks (base : List String) (ownPath : String) (own : Ident) (paths : List String)
    (imports : Imports) : Prop where
  spelled : Entries.get? ownPath imports.spellings = some (.named own)
  foreign : ownPath ∉ paths
  taken : ∀ n, n ∈ imports.taken ↔ n ∈ base ∨ ∃ p ∈ paths, importableTail? p = some n
  uses : List.Forall₂ (fun p segments => path? p = some segments) paths imports.uses
  nodup : (paths.map importableTail?).Nodup
  imported : ∀ p ∈ paths, ∃ tail, importableTail? p = some tail ∧ tail ∉ base ∧
    Entries.get? p imports.spellings = some (.named (.plain tail))
  known : ∀ p type, Entries.get? p imports.spellings = some type →
    (p = ownPath ∧ type = .named own) ∨ p ∈ paths ∨
      (∃ form tokens, type = .verbatim form tokens) ∧
        ∀ tail, importableTail? p = some tail → tail ∈ imports.taken

def Knows (imports : Imports) (path : String) : Prop :=
  (Entries.get? path imports.spellings).isSome = true

/-- Makes a path known whose spelling is given. -/
def spell (imports : Imports) (path : String) (type : Ty) : Imports :=
  { imports with spellings := Entries.put path type imports.spellings }

/-- Imports a path under its last segment. -/
def bring (imports : Imports) (path tail : String) (segments : List Ident) : Imports :=
  { imports with
    taken := tail :: imports.taken
    uses := imports.uses ++ [segments]
    spellings := Entries.put path (.named (.plain tail)) imports.spellings }

theorem know_cases {imports imports' : Imports} {path : String}
    (h : imports.know path = .ok imports') :
    (imports.Knows path ∧ imports' = imports) ∨
      Entries.get? path imports.spellings = none ∧
        ((∃ tail segments, importableTail? path = some tail ∧ tail ∉ imports.taken ∧
            path? path = some segments ∧ imports' = imports.bring path tail segments) ∨
          ∃ form tokens, (∀ tail, importableTail? path = some tail → tail ∈ imports.taken) ∧
            imports' = imports.spell path (.verbatim form tokens)) := by
  unfold know at h
  split at h
  · rename_i hknown
    cases h
    exact Or.inl ⟨hknown, rfl⟩
  · rename_i hunknown
    refine Or.inr ⟨by simpa using hunknown, ?_⟩
    split at h
    · rename_i tail htail
      obtain ⟨htail, hfree⟩ := Option.filter_eq_some_iff.mp htail
      split at h
      · rename_i segments hsegments
        cases h
        exact Or.inl ⟨tail, segments, htail, by simpa using hfree, hsegments, rfl⟩
      · cases h
    · rename_i hnone
      split at h
      · rename_i type htype
        cases h
        obtain ⟨form, tokens, rfl⟩ := eq_verbatim_of_ofText? htype
        refine Or.inr ⟨form, tokens, fun tail htail => ?_, rfl⟩
        rw [htail, Option.filter_some] at hnone
        simpa using hnone
      · cases h

theorem knows_put {imports : Imports} {path p : String} {type : Ty}
    (h : p = path ∨ imports.Knows p) :
    (Entries.get? p (Entries.put path type imports.spellings)).isSome = true := by
  rw [Entries.get?_put]
  split
  · rfl
  · rename_i hne
    exact h.resolve_left fun e => hne e.symm

section Tracks

variable {base : List String} {ownPath : String} {own : Ident} {paths : List String}
  {imports imports' : Imports}

theorem Tracks.ne_own (h : Tracks base ownPath own paths imports) {path : String}
    (hnew : Entries.get? path imports.spellings = none) : path ≠ ownPath := by
  rintro rfl
  rw [h.spelled] at hnew
  cases hnew

theorem Tracks.spell (h : Tracks base ownPath own paths imports) {path : String}
    (hnew : Entries.get? path imports.spellings = none) {form : TypeForm} {tokens : List Token}
    (htail : ∀ tail, importableTail? path = some tail → tail ∈ imports.taken) :
    Tracks base ownPath own paths (imports.spell path (.verbatim form tokens)) where
  spelled := by
    rw [Imports.spell, Entries.get?_put, if_neg (h.ne_own hnew)]
    exact h.spelled
  foreign := h.foreign
  taken := h.taken
  uses := h.uses
  nodup := h.nodup
  imported p hp := by
    obtain ⟨tail, ht, hfree, hspelled⟩ := h.imported p hp
    refine ⟨tail, ht, hfree, ?_⟩
    rw [Imports.spell, Entries.get?_put, if_neg]
    · exact hspelled
    · rintro rfl
      rw [hnew] at hspelled
      cases hspelled
  known p type hp := by
    rw [Imports.spell, Entries.get?_put] at hp
    split at hp
    · rename_i e
      cases e
      cases hp
      exact Or.inr (Or.inr ⟨⟨form, tokens, rfl⟩, htail⟩)
    · exact h.known p type hp

theorem Tracks.bring (h : Tracks base ownPath own paths imports) {path tail : String}
    {segments : List Ident} (hnew : Entries.get? path imports.spellings = none)
    (htail : importableTail? path = some tail) (hfree : tail ∉ imports.taken)
    (hsegments : path? path = some segments) :
    Tracks base ownPath own (paths ++ [path]) (imports.bring path tail segments) where
  spelled := by
    rw [Imports.bring, Entries.get?_put, if_neg (h.ne_own hnew)]
    exact h.spelled
  foreign := by
    rw [List.mem_append, List.mem_singleton]
    exact fun hp => hp.elim h.foreign fun e => h.ne_own hnew e.symm
  taken n := by
    rw [Imports.bring, List.mem_cons, h.taken]
    simp only [List.mem_append, List.mem_singleton]
    constructor
    · rintro (rfl | hn | ⟨p, hp, hn⟩)
      · exact Or.inr ⟨path, Or.inr rfl, htail⟩
      · exact Or.inl hn
      · exact Or.inr ⟨p, Or.inl hp, hn⟩
    · rintro (hn | ⟨p, hp | rfl, hn⟩)
      · exact Or.inr (Or.inl hn)
      · exact Or.inr (Or.inr ⟨p, hp, hn⟩)
      · exact Or.inl (Option.some.inj (hn.symm.trans htail))
  uses := List.rel_append h.uses (.cons hsegments .nil)
  nodup := by
    rw [List.map_append, List.nodup_append]
    refine ⟨h.nodup, by simp, fun a ha b hb => ?_⟩
    rw [List.map_singleton, List.mem_singleton] at hb
    obtain ⟨p, hp, rfl⟩ := List.mem_map.mp ha
    rw [hb, htail]
    exact fun e => hfree ((h.taken tail).mpr (Or.inr ⟨p, hp, e⟩))
  imported p hp := by
    rw [Imports.bring, Entries.get?_put]
    rcases List.mem_append.mp hp with hp | hp
    · obtain ⟨tail', ht, hbase, hspelled⟩ := h.imported p hp
      refine ⟨tail', ht, hbase, ?_⟩
      rw [if_neg]
      · exact hspelled
      · rintro rfl
        rw [hnew] at hspelled
        cases hspelled
    · cases List.mem_singleton.mp hp
      exact ⟨tail, htail, fun hb => hfree ((h.taken tail).mpr (Or.inl hb)), if_pos rfl⟩
  known p type hp := by
    rw [Imports.bring, Entries.get?_put] at hp
    split at hp
    · rename_i e
      cases e
      exact Or.inr (Or.inl (List.mem_append_right _ (List.mem_singleton_self _)))
    · rcases h.known p type hp with hown | hmem | ⟨htype, ht⟩
      · exact Or.inl hown
      · exact Or.inr (Or.inl (List.mem_append_left _ hmem))
      · exact Or.inr (Or.inr ⟨htype, fun t he => List.mem_cons_of_mem tail (ht t he)⟩)

/-- Making a path known imports it or leaves the imported paths as they are. -/
theorem Tracks.know (h : Tracks base ownPath own paths imports) {path : String}
    (hk : imports.know path = .ok imports') :
    ∃ paths', Tracks base ownPath own paths' imports' ∧ (∀ p ∈ paths', p = path ∨ p ∈ paths) ∧
      imports'.runtime = imports.runtime ∧
      ∀ p, p = path ∨ imports.Knows p → imports'.Knows p := by
  rcases know_cases hk with ⟨hknown, rfl⟩ | ⟨hnew, ⟨tail, segments, ht, hfree, hsegments, rfl⟩ |
    ⟨form, tokens, ht, rfl⟩⟩
  · refine ⟨paths, h, fun p hp => Or.inr hp, rfl, fun p hp => ?_⟩
    rcases hp with rfl | hp
    · exact hknown
    · exact hp
  · refine ⟨paths ++ [path], h.bring hnew ht hfree hsegments, fun p hp => ?_, rfl,
      fun p hp => knows_put hp⟩
    rw [List.mem_append, List.mem_singleton] at hp
    exact hp.symm
  · exact ⟨paths, h.spell hnew ht, fun p hp => Or.inr hp, rfl, fun p hp => knows_put hp⟩

/-- What holds of one path holds of all that are made known. -/
theorem Tracks.foldlM (h : Tracks base ownPath own paths imports) {added : List String}
    (hk : added.foldlM Imports.know imports = .ok imports') :
    ∃ paths', Tracks base ownPath own paths' imports' ∧ (∀ p ∈ paths', p ∈ added ∨ p ∈ paths) ∧
      imports'.runtime = imports.runtime ∧
      ∀ p, p ∈ added ∨ imports.Knows p → imports'.Knows p := by
  induction added generalizing imports paths with
  | nil =>
      cases hk
      exact ⟨paths, h, fun p hp => Or.inr hp, rfl, fun p hp => hp.resolve_left List.not_mem_nil⟩
  | cons path added ih =>
      rw [List.foldlM_cons] at hk
      obtain ⟨mid, hmid, hk⟩ := Outcome.bind_ok.mp hk
      obtain ⟨paths₁, h₁, hsub₁, hruntime₁, hknows₁⟩ := h.know hmid
      obtain ⟨paths₂, h₂, hsub₂, hruntime₂, hknows₂⟩ := ih h₁ hk
      refine ⟨paths₂, h₂, fun p hp => ?_, hruntime₂.trans hruntime₁, fun p hp => ?_⟩
      · rcases hsub₂ p hp with hp | hp
        · exact Or.inl (List.mem_cons_of_mem path hp)
        · rcases hsub₁ p hp with rfl | hp
          · exact Or.inl (List.mem_cons_self ..)
          · exact Or.inr hp
      · rw [List.mem_cons, or_assoc] at hp
        rcases hp with rfl | hp | hp
        · exact hknows₂ p (Or.inr (hknows₁ p (Or.inl rfl)))
        · exact hknows₂ p (Or.inl hp)
        · exact hknows₂ p (Or.inr (hknows₁ p (Or.inr hp)))

end Tracks

/-! ## The table of a file -/

/-- The names that a file's table starts with. -/
def startNames (imports : Imports) (defined : List String) : List String :=
  reservedNames ++ defined ++ imports.runtime.map (·.name)

theorem of_ok {item : Code.Model} {ownPath : String} {defined : List String} {imports : Imports}
    (h : Imports.of item ownPath defined = .ok imports) :
    ∃ own paths, Ident.escaped item.name = .ok own ∧
      Tracks (imports.startNames defined) ownPath own paths imports ∧
      (∀ p ∈ paths, p ∈ item.dependencies.artifacts) ∧
      (∀ p ∈ item.dependencies.artifacts, imports.Knows p) ∧
      imports.runtime = item.dependencies.runtime.filter
        (fun r => r.name ∉ reservedNames ++ defined) := by
  obtain ⟨own, hown, h⟩ := Outcome.bind_ok.mp h
  have hstart : Tracks (reservedNames ++ defined ++ (item.dependencies.runtime.filter
      (fun r => r.name ∉ reservedNames ++ defined)).map (·.name)) ownPath own []
      ⟨reservedNames ++ defined ++ (item.dependencies.runtime.filter
        (fun r => r.name ∉ reservedNames ++ defined)).map (·.name),
        item.dependencies.runtime.filter (fun r => r.name ∉ reservedNames ++ defined), [],
        [(ownPath, .named own)]⟩ := by
    refine ⟨if_pos rfl, List.not_mem_nil, by simp, .nil, by simp, by simp, fun p type hp => ?_⟩
    rw [Entries.get?] at hp
    split at hp
    · rename_i e
      cases hp
      exact Or.inl ⟨e.symm, rfl⟩
    · cases hp
  obtain ⟨paths, htracks, hsub, hruntime, hknows⟩ := hstart.foldlM h
  refine ⟨own, paths, hown, ?_, fun p hp => (hsub p hp).resolve_right List.not_mem_nil,
    fun p hp => hknows p (Or.inl hp), hruntime⟩
  rw [startNames, hruntime]
  exact htracks

/-! ## Short names -/

/-- A path other than that of the file's own item is spelled by a single name. -/
def Shortens (imports : Imports) (ownPath path : String) (i : Ident) : Prop :=
  path ≠ ownPath ∧ imports.typeAt path = .ok (.named i)

section Shortens

variable {base : List String} {ownPath : String} {own : Ident} {paths : List String}
  {imports : Imports}

theorem Tracks.typeAt_own (h : Tracks base ownPath own paths imports) :
    imports.typeAt ownPath = .ok (.named own) := by
  rw [typeAt, h.spelled]

/-- A path is that of the file's own item, or imported, or spelled in full. -/
theorem Tracks.typeAt_cases (h : Tracks base ownPath own paths imports) {path : String} {type : Ty}
    (ht : imports.typeAt path = .ok type) :
    (path = ownPath ∧ type = .named own) ∨
      (path ∈ paths ∧ ∃ tail, importableTail? path = some tail ∧ type = .named (.plain tail)) ∨
      ∃ form tokens, type = .verbatim form tokens := by
  unfold typeAt at ht
  split at ht
  · rename_i type' hspelled
    cases ht
    rcases h.known path _ hspelled with hown | hmem | ⟨htype, _⟩
    · exact Or.inl hown
    · obtain ⟨tail, htail, _, hspelled'⟩ := h.imported path hmem
      cases hspelled.symm.trans hspelled'
      exact Or.inr (Or.inl ⟨hmem, tail, htail, rfl⟩)
    · exact Or.inr (Or.inr htype)
  · split at ht
    · rename_i type' htext
      cases ht
      exact Or.inr (Or.inr (eq_verbatim_of_ofText? htext))
    · cases ht

/-- What is spelled by a single name has been imported under its last segment. -/
theorem Tracks.shortens_iff (h : Tracks base ownPath own paths imports) {path : String}
    {i : Ident} : imports.Shortens ownPath path i ↔
      path ∈ paths ∧ ∃ tail, importableTail? path = some tail ∧ i = .plain tail := by
  constructor
  · rintro ⟨hne, htype⟩
    rcases h.typeAt_cases htype with ⟨e, _⟩ | ⟨hmem, tail, htail, e⟩ | ⟨form, tokens, e⟩
    · exact absurd e hne
    · cases e
      exact ⟨hmem, tail, htail, rfl⟩
    · cases e
  · rintro ⟨hmem, tail, htail, rfl⟩
    obtain ⟨tail', htail', _, hspelled⟩ := h.imported path hmem
    cases htail.symm.trans htail'
    refine ⟨fun e => h.foreign (e ▸ hmem), ?_⟩
    rw [typeAt, hspelled]

/-- A single name spells one path at most. -/
theorem Tracks.eq_of_shortens (h : Tracks base ownPath own paths imports) {path path' : String}
    {i i' : Ident} (hp : imports.Shortens ownPath path i) (hp' : imports.Shortens ownPath path' i')
    (hi : i.name = i'.name) : path = path' := by
  obtain ⟨hmem, tail, htail, rfl⟩ := h.shortens_iff.mp hp
  obtain ⟨hmem', tail', htail', rfl⟩ := h.shortens_iff.mp hp'
  cases hi
  exact List.inj_on_of_nodup_map h.nodup hmem hmem' (htail.trans htail'.symm)

theorem Tracks.not_mem_base (h : Tracks base ownPath own paths imports) {path : String}
    {i : Ident} (hp : imports.Shortens ownPath path i) : i.name ∉ base := by
  obtain ⟨hmem, tail, htail, rfl⟩ := h.shortens_iff.mp hp
  obtain ⟨tail', htail', hfree, _⟩ := h.imported path hmem
  cases htail.symm.trans htail'
  exact hfree

theorem Tracks.exists_use (h : Tracks base ownPath own paths imports) {path : String} {i : Ident}
    (hp : imports.Shortens ownPath path i) :
    ∃ segments ∈ imports.uses, path? path = some segments ∧ segments.getLast? = some i := by
  obtain ⟨hmem, tail, htail, rfl⟩ := h.shortens_iff.mp hp
  obtain ⟨segments, hs, hpath⟩ := Outcome.mem_of_forall₂ h.uses path hmem
  exact ⟨segments, hs, hpath, getLast?_of_path? hpath htail⟩

/-- What is spelled by a single name is imported, and so is nothing else. -/
theorem Tracks.mem_uses (h : Tracks base ownPath own paths imports) {i : Ident} :
    (∃ segments ∈ imports.uses, segments.getLast? = some i) ↔
      ∃ path, imports.Shortens ownPath path i := by
  constructor
  · rintro ⟨segments, hs, hlast⟩
    obtain ⟨path, hmem, hpath⟩ := Outcome.mem_of_forall₂' h.uses segments hs
    obtain ⟨tail, htail, _, _⟩ := h.imported path hmem
    cases hlast.symm.trans (getLast?_of_path? hpath htail)
    exact ⟨path, h.shortens_iff.mpr ⟨hmem, tail, htail, rfl⟩⟩
  · rintro ⟨path, hp⟩
    obtain ⟨segments, hs, _, hlast⟩ := h.exists_use hp
    exact ⟨segments, hs, hlast⟩

/-- Short names avoid names that the table does not start with exactly if no path ends in one of
those. -/
theorem Tracks.avoids_iff (h : Tracks base ownPath own paths imports) {artifacts : List String}
    (hsub : ∀ p ∈ paths, p ∈ artifacts) (hknows : ∀ p ∈ artifacts, imports.Knows p)
    {names : List String} (hnames : ∀ n ∈ names, n ∉ base) :
    (∀ path i, imports.Shortens ownPath path i → i.name ∉ names) ↔
      ∀ p ∈ artifacts, p ≠ ownPath → ∀ tail, importableTail? p = some tail → tail ∉ names := by
  constructor
  · intro havoid p hp hne tail htail hin
    -- A name is never given up: it has been taken for `p` or before `p` became known.
    have htaken : tail ∈ imports.taken := by
      obtain ⟨type, htype⟩ := Option.isSome_iff_exists.mp (hknows p hp)
      rcases h.known p type htype with ⟨e, _⟩ | hmem | ⟨_, ht⟩
      · exact absurd e hne
      · exact (h.taken tail).mpr (Or.inr ⟨p, hmem, htail⟩)
      · exact ht tail htail
    rcases (h.taken tail).mp htaken with hbase | ⟨p', hmem, htail'⟩
    · exact hnames tail hin hbase
    · exact havoid p' (.plain tail) (h.shortens_iff.mpr ⟨hmem, tail, htail', rfl⟩) hin
  · intro havoid path i hp hin
    obtain ⟨hmem, tail, htail, rfl⟩ := h.shortens_iff.mp hp
    exact havoid path (hsub path hmem) hp.1 tail htail hin

end Shortens

end Imports

end Graphwright.Rust
