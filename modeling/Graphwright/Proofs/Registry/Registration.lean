import Graphwright.Proofs.Registry.Declared
import Graphwright.Registry.Resolve

/-!
# Definitions offered one after another

A registry that starts empty takes the first definition of every name that is not built in. Any
other definition leaves it as it was, and whatever it has answered once it answers ever after.
-/
namespace Graphwright.Registry

open Schema (Category Definition)

section

variable {home : Namespace} {r r' r'' : Registry} {d : Definition} {ds : List Definition}

/-! ## One definition -/

/-- A definition takes a name that is free, declares a built-in scalar again, or is refused. -/
theorem register_cases (r : Registry) (d : Definition) :
    (r.register d = .added (r.insert ⟨d, r.home.typePath d.name, none⟩) ∧
      Primitive.ofName? d.name = none ∧ d.name ∉ r.names) ∨
    (r.register d = .ignored (.builtinRedeclared d.name) ∧
      (Primitive.ofName? d.name).isSome = true ∧ d.shape = .scalar) ∨
    (r.register d = .refused (.duplicateDefinition d.name) ∧
      ((Primitive.ofName? d.name).isSome = true ∧ d.shape ≠ .scalar ∨
        Primitive.ofName? d.name = none ∧ d.name ∈ r.names)) := by
  unfold register
  by_cases hbuiltin : (Primitive.ofName? d.name).isSome = true
  · by_cases hscalar : d.shape = .scalar
    · simp [hbuiltin, hscalar]
    · simp [hbuiltin, hscalar]
  · by_cases hname : d.name ∈ r.names
    · simp_all
    · simp_all

theorem after_of_added (h : r.register d = .added r') : r.after d = r' := by
  rw [after, h]

theorem after_of_ignored {warning : Warning} (h : r.register d = .ignored warning) :
    r.after d = r := by
  rw [after, h]

theorem after_of_refused {failure : Failure} (h : r.register d = .refused failure) :
    r.after d = r := by
  rw [after, h]

theorem WellFormed.after (h : r.WellFormed home) (d : Definition) :
    (r.after d).WellFormed home := by
  rcases register_cases r d with ⟨hr, _⟩ | ⟨hr, _⟩ | ⟨hr, _⟩
  · rw [after_of_added hr]
    exact h.register hr
  · rw [after_of_ignored hr]
    exact h
  · rw [after_of_refused hr]
    exact h

theorem position?_insert (r : Registry) (t : RegisteredType) (name : String) :
    (r.insert t).position? name =
      if t.name = name then some r.types.length else r.position? name :=
  Entries.get?_put name t.name r.types.length r.index

/-- A name that was free finds the type that takes it, and any other what it found before. -/
theorem find?_insert {r : Registry} {t : RegisteredType} (hnew : t.name ∉ r.names) (name : String) :
    (r.insert t).find? name = (r.find? name).or (if t.name = name then some t else none) := by
  rw [Registry.find?, position?_insert]
  by_cases hname : t.name = name
  · rw [if_pos hname, if_pos hname, find?_eq_none_iff.mpr (hname ▸ hnew), Option.bind_some,
      types_insert, List.getElem?_concat_length, Option.none_or]
  · rw [if_neg hname, if_neg hname, Option.or_none]
    cases hi : r.position? name with
    | none => rw [Registry.find?, hi]; rfl
    | some i =>
        obtain ⟨t', ht', _, hfind⟩ := find?_of_position? hi
        rw [hfind, Option.bind_some, types_insert,
          List.getElem?_append_left (List.getElem?_eq_some_iff.mp ht').1, ht']

/-- A definition is found from then on if its name was free and is not built in. -/
theorem find?_after (r : Registry) (d : Definition) (name : String) :
    (r.after d).find? name = (r.find? name).or
      (if d.name = name ∧ Primitive.ofName? d.name = none
        then some ⟨d, r.home.typePath d.name, none⟩ else none) := by
  rcases register_cases r d with
    ⟨h, hfree, hnew⟩ | ⟨h, hbuiltin, _⟩ | ⟨h, ⟨hbuiltin, _⟩ | ⟨hfree, hmem⟩⟩
  · rw [after_of_added h, find?_insert hnew]
    simp only [RegisteredType.name, hfree, and_true]
    rfl
  · rw [after_of_ignored h, if_neg fun hd => by simp [hd.2] at hbuiltin, Option.or_none]
  · rw [after_of_refused h, if_neg fun hd => by simp [hd.2] at hbuiltin, Option.or_none]
  · rw [after_of_refused h]
    split
    · rename_i hd
      obtain ⟨t, ht⟩ := Option.ne_none_iff_exists'.mp fun hnone =>
        find?_eq_none_iff.mp hnone (hd.1 ▸ hmem)
      rw [ht, Option.some_or]
    · rw [Option.or_none]

/-! ## Answers that stay -/

/-- Whatever one registry has answered, the other answers alike. -/
structure Extends (r r' : Registry) : Prop where
  types : r.types <+: r'.types
  position? : ∀ name i, r.position? name = some i → r'.position? name = some i
  find? : ∀ name t, r.find? name = some t → r'.find? name = some t
  categoryOf? : ∀ name c, r.categoryOf? name = some c → r'.categoryOf? name = some c
  resolve : ∀ type context u, r.resolve type context = .ok u → r'.resolve type context = .ok u

theorem target?_of_find? (hfind : ∀ name t, r.find? name = some t → r'.find? name = some t)
    {name : String} {target : Target} (h : r.target? name = some target) :
    r'.target? name = some target := by
  unfold target? at h ⊢
  split at h
  · exact h
  · obtain ⟨t, ht, rfl⟩ := Option.map_eq_some_iff.mp h
    rw [hfind name t ht]
    rfl

theorem resolveLayer_of_target?
    (htarget : ∀ name target, r.target? name = some target → r'.target? name = some target)
    {context : String} {nullable : Bool} {type : Schema.TypeRef} {u : ResolvedType}
    (h : r.resolveLayer context nullable type = .ok u) :
    r'.resolveLayer context nullable type = .ok u := by
  induction type generalizing nullable u with
  | named name =>
      simp only [resolveLayer] at h ⊢
      split at h
      · rename_i target ht
        rw [htarget name target ht]
        exact h
      · cases h
  | list element ih =>
      obtain ⟨e, he, hu⟩ := Outcome.map_ok.mp h
      exact Outcome.map_ok.mpr ⟨e, ih he, hu⟩
  | nonNull inner ih => exact ih h

/-- Every answer goes back to the position of a name and what stands there. -/
theorem extends_of_position? (htypes : r.types <+: r'.types)
    (hposition : ∀ name i, r.position? name = some i → r'.position? name = some i) :
    Extends r r' := by
  have hfind : ∀ name t, r.find? name = some t → r'.find? name = some t := by
    intro name t ht
    obtain ⟨i, hi, ht⟩ := Option.bind_eq_some_iff.mp ht
    obtain ⟨hbound, rfl⟩ := List.getElem?_eq_some_iff.mp ht
    rw [Registry.find?, hposition name i hi, Option.bind_some]
    exact List.prefix_iff_getElem?.mp htypes i hbound
  refine ⟨htypes, hposition, hfind, fun name c hc => ?_, fun type context u hu => ?_⟩
  · obtain ⟨t, ht, rfl⟩ := Option.map_eq_some_iff.mp hc
    rw [Registry.categoryOf?, hfind name t ht]
    rfl
  · exact resolveLayer_of_target? (fun name target => target?_of_find? hfind) hu

theorem Extends.refl (r : Registry) : Extends r r :=
  extends_of_position? List.prefix_rfl fun _ _ h => h

theorem Extends.trans (h : Extends r r') (h' : Extends r' r'') : Extends r r'' :=
  extends_of_position? (h.types.trans h'.types) fun name i hi =>
    h'.position? name i (h.position? name i hi)

/-- Whatever comes of a definition, what was found before is found after it. -/
theorem extends_after (r : Registry) (d : Definition) : Extends r (r.after d) := by
  rcases register_cases r d with ⟨h, _, hnew⟩ | ⟨h, _⟩ | ⟨h, _⟩
  · rw [after_of_added h]
    refine extends_of_position? (List.prefix_append _ _) fun name i hi => ?_
    rw [position?_insert, if_neg, hi]
    rintro rfl
    exact hnew (Entries.mem_names_of_get? hi)
  · rw [after_of_ignored h]
    exact .refl r
  · rw [after_of_refused h]
    exact .refl r

/-! ## Any number of definitions -/

/-- The registry after definitions have been offered to an empty one, whatever came of each. -/
def registerAll (home : Namespace) (ds : List Definition) : Registry := ds.foldl after (empty home)

theorem registerAll_append (home : Namespace) (ds es : List Definition) :
    registerAll home (ds ++ es) = es.foldl after (registerAll home ds) :=
  List.foldl_append ..

theorem registerAll_concat (home : Namespace) (ds : List Definition) (d : Definition) :
    registerAll home (ds ++ [d]) = (registerAll home ds).after d := by
  rw [registerAll_append]
  rfl

theorem wellFormed_registerAll (home : Namespace) (ds : List Definition) :
    (registerAll home ds).WellFormed home := by
  induction ds using List.reverseRecOn with
  | nil => exact .empty home
  | append_singleton ds d ih =>
      rw [registerAll_concat]
      exact ih.after d

theorem extends_foldl_after (r : Registry) (ds : List Definition) :
    Extends r (ds.foldl after r) := by
  induction ds generalizing r with
  | nil => exact .refl r
  | cons d ds ih => exact (extends_after r d).trans (ih (r.after d))

/-- A name finds the first definition that was offered under it, unless it is built in. -/
theorem find?_registerAll (home : Namespace) (ds : List Definition) (name : String) :
    (registerAll home ds).find? name =
      if (Primitive.ofName? name).isSome then none
      else (ds.find? (·.name = name)).map (registered home []) := by
  induction ds using List.reverseRecOn with
  | nil => split <;> rfl
  | append_singleton ds d ih =>
      rw [registerAll_concat, find?_after, ih, (wellFormed_registerAll home ds).home_eq,
        List.find?_append, List.find?_singleton]
      by_cases hname : d.name = name
      · subst hname
        cases hbuiltin : Primitive.ofName? d.name with
        | some primitive => simp
        | none =>
            cases ds.find? (·.name = d.name) with
            | none => simp; rfl
            | some first => simp
      · simp [hname]

theorem mem_names_registerAll (home : Namespace) (ds : List Definition) (name : String) :
    name ∈ (registerAll home ds).names ↔
      Primitive.ofName? name = none ∧ name ∈ ds.map (·.name) := by
  rw [← not_iff_not, ← find?_eq_none_iff, find?_registerAll]
  cases Primitive.ofName? name <;> simp

/-! ## Categories -/

theorem mem_all (c : Category) : c ∈ Category.all := by
  cases c <;> decide

/-- The lists of the categories share the types out among them. -/
theorem perm_ofCategory (r : Registry) : (Category.all.flatMap r.ofCategory).Perm r.types := by
  rw [List.perm_iff_count]
  intro t
  have hcount : ∀ c, (r.ofCategory c).count t = if t.category = c then r.types.count t else 0 := by
    intro c
    split
    · rename_i hc
      rw [ofCategory, List.count_filter (by simpa using hc)]
    · rename_i hc
      rw [ofCategory, List.count_eq_zero, List.mem_filter]
      simp [hc]
  cases hc : t.category <;> simp [Category.all, hcount, hc]

/-! ## Consistency -/

/-- What stands at the position of a name is what the name finds. -/
theorem WellFormed.position?_iff_find? (h : r.WellFormed home) {name : String} {i : Nat} :
    r.position? name = some i ↔ ∃ t, r.types[i]? = some t ∧ r.find? name = some t := by
  rw [h.position?_eq_some_iff, Option.map_eq_some_iff]
  refine exists_congr fun t => and_congr_right fun ht => ?_
  rw [h.find?_eq_some_iff, and_iff_right (List.mem_of_getElem? ht)]

/-- What a registry says about its types. -/
structure Consistent (r : Registry) : Prop where
  /-- The index has the names of the types, in the same order. -/
  names_eq : r.names = r.types.map (·.name)
  nodup : r.names.Nodup
  notBuiltin : ∀ name ∈ r.names, Primitive.ofName? name = none
  /-- The index holds exactly the positions of the names. -/
  position?_eq_some_iff : ∀ name i,
    r.position? name = some i ↔ r.types[i]?.map (·.name) = some name
  position?_iff_find? : ∀ name i,
    r.position? name = some i ↔ ∃ t, r.types[i]? = some t ∧ r.find? name = some t
  find?_eq_some_iff : ∀ name t, r.find? name = some t ↔ t ∈ r.types ∧ t.name = name
  find?_eq_none_iff : ∀ name, r.find? name = none ↔ name ∉ r.names
  /-- A name has the category of its one type, or none. -/
  categoryOf?_eq_some_iff : ∀ name c, r.categoryOf? name = some c ↔
    ∃ t ∈ r.types, t.name = name ∧ t.category = c
  unique : ∀ t ∈ r.types, ∀ t' ∈ r.types, t.name = t'.name → t = t'
  mem_ofCategory : ∀ t c, t ∈ r.ofCategory c ↔ t ∈ r.types ∧ t.category = c
  partition : (Category.all.flatMap r.ofCategory).Perm r.types
  order : ∀ c, (r.ofCategory c).Sublist r.types

theorem WellFormed.consistent (h : r.WellFormed home) : Consistent r where
  names_eq := h.names_eq
  nodup := h.names_eq ▸ h.nodup
  notBuiltin := h.names_eq ▸ List.forall_mem_map.mpr h.notBuiltin
  position?_eq_some_iff _ _ := h.position?_eq_some_iff
  position?_iff_find? _ _ := h.position?_iff_find?
  find?_eq_some_iff _ _ := h.find?_eq_some_iff
  find?_eq_none_iff _ := Registry.find?_eq_none_iff
  categoryOf?_eq_some_iff name c := by
    simp only [categoryOf?, Option.map_eq_some_iff, h.find?_eq_some_iff, and_assoc]
  unique _ ht _ ht' := List.inj_on_of_nodup_map h.nodup ht ht'
  mem_ofCategory t c := by simp [ofCategory]
  partition := perm_ofCategory r
  order _ := List.filter_sublist

/-! ## The next definition -/

/-- What comes of a definition that is offered after others: `r` is the registry before it, `r'` the
one after it. -/
def Follows (offered : List Definition) (d : Definition) (r r' : Registry) : Registration → Prop
  | .added registry => Primitive.ofName? d.name = none ∧ d.name ∉ offered.map (·.name) ∧
      registry = r' ∧ r' = r.insert ⟨d, r.home.typePath d.name, none⟩ ∧
      r'.position? d.name = some r.types.length
  | .ignored warning => warning = .builtinRedeclared d.name ∧
      (Primitive.ofName? d.name).isSome = true ∧ d.shape = .scalar ∧ r' = r
  | .refused failure => failure = .duplicateDefinition d.name ∧
      ((Primitive.ofName? d.name).isSome = true ∧ d.shape ≠ .scalar ∨
        Primitive.ofName? d.name = none ∧ d.name ∈ offered.map (·.name)) ∧ r' = r

theorem follows_registerAll (home : Namespace) (ds : List Definition) (d : Definition) :
    Follows ds d (registerAll home ds) (registerAll home (ds ++ [d]))
      ((registerAll home ds).register d) := by
  rw [registerAll_concat]
  rcases register_cases (registerAll home ds) d with
    ⟨h, hfree, hnew⟩ | ⟨h, hbuiltin, hscalar⟩ | ⟨h, hreason⟩
  · rw [after_of_added h, h]
    exact ⟨hfree, fun hmem => hnew ((mem_names_registerAll ..).mpr ⟨hfree, hmem⟩), rfl, rfl,
      (position?_insert ..).trans (if_pos rfl)⟩
  · rw [after_of_ignored h, h]
    exact ⟨rfl, hbuiltin, hscalar, rfl⟩
  · rw [after_of_refused h, h]
    exact ⟨rfl, hreason.imp_right fun ⟨hfree, hmem⟩ =>
      ⟨hfree, ((mem_names_registerAll ..).mp hmem).2⟩, rfl⟩

/-- Whatever definitions are offered to an empty registry, it holds the first one of each name that
is not built in. Only a definition that it takes changes it, and no answer is ever revised. -/
theorem registerAll_consistent (home : Namespace) (ds : List Definition) :
    Consistent (registerAll home ds) ∧
      (∀ name, (registerAll home ds).find? name =
        if (Primitive.ofName? name).isSome then none
        else (ds.find? (·.name = name)).map (registered home [])) ∧
      (∀ d, Follows ds d (registerAll home ds) (registerAll home (ds ++ [d]))
        ((registerAll home ds).register d)) ∧
      ∀ later, Extends (registerAll home ds) (registerAll home (ds ++ later)) := by
  refine ⟨(wellFormed_registerAll home ds).consistent, find?_registerAll home ds,
    follows_registerAll home ds, fun later => ?_⟩
  rw [registerAll_append]
  exact extends_foldl_after _ later

end

end Graphwright.Registry
