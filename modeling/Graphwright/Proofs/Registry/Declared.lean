import Graphwright.Proofs.Entries
import Graphwright.Proofs.Registry.Invariants
import Mathlib.Data.List.Induction

/-!
# The registry of a document

What a document has as its registry can be read off its definitions: root objects become
operations, and every other definition that declares no built-in scalar a type. Whether there is a
registry depends on the definitions as a set, as long as no root has the name of a built-in scalar.
-/
namespace Graphwright

namespace RegisteredType

/-- The type with a hand-written item if it is the named one. -/
def substitute (name path : String) (t : RegisteredType) : RegisteredType :=
  if t.name = name then { t with substitution := some path } else t

section

variable (name path : String) (t : RegisteredType)

@[simp] theorem definition_substitute : (t.substitute name path).definition = t.definition := by
  unfold substitute
  split <;> rfl

@[simp] theorem name_substitute : (t.substitute name path).name = t.name :=
  congrArg (·.name) (t.definition_substitute name path)

@[simp] theorem category_substitute : (t.substitute name path).category = t.category :=
  congrArg (·.category) (t.definition_substitute name path)

end

variable {name path : String} {t : RegisteredType}

theorem substitute_eq (h : t.name = name) :
    t.substitute name path = { t with substitution := some path } := if_pos h

theorem substitute_ne (h : t.name ≠ name) : t.substitute name path = t := if_neg h

end RegisteredType

namespace Registry

open Schema (Definition Document Roots)

/-- A definition becomes a type, as it is no root object and its name is not built in. -/
def isType (roots : Roots) (d : Definition) : Bool :=
  (rootKind? roots d).isNone && (Primitive.ofName? d.name).isNone

/-- The path of the hand-written item for a type, if there is one. -/
def replacement? (substitutions : Substitutions) (name : String) : Option String :=
  Entries.get? name (Entries.collect substitutions)

/-- What a definition is registered as. -/
def registered (home : Namespace) (substitutions : Substitutions) (d : Definition) :
    RegisteredType where
  definition := d
  generatedPath := home.typePath d.name
  substitution := replacement? substitutions d.name

/-- The fields of the root objects of a kind. -/
def rootFields (roots : Roots) (kind : OperationKind) (ds : List Definition) : List Schema.Field :=
  (ds.filter (rootKind? roots · = some kind)).flatMap (fieldsOf ·.shape)

/-- The registry of a document, if it has one. -/
def declared (document : Document) (home : Namespace) (substitutions : Substitutions) :
    Registry where
  home := home
  types := (document.definitions.filter (isType document.roots)).map (registered home substitutions)
  index := ((document.definitions.filter (isType document.roots)).map (·.name)).zipIdx
  queries := rootFields document.roots .query document.definitions
  mutations := rootFields document.roots .mutation document.definitions
  sound := by
    rw [List.map_map]
    exact .zipIdx _

theorem names_declared (document : Document) (home : Namespace) (substitutions : Substitutions) :
    (declared document home substitutions).names =
      (document.definitions.filter (isType document.roots)).map (·.name) := by
  rw [names, declared, Entries.names, List.zipIdx_map_fst]

theorem types_declared (document : Document) (home : Namespace) (substitutions : Substitutions) :
    (declared document home substitutions).types =
      (document.definitions.filter (isType document.roots)).map (registered home substitutions) := rfl

theorem index_declared (document : Document) (home : Namespace) (substitutions : Substitutions) :
    (declared document home substitutions).index =
      ((document.definitions.filter (isType document.roots)).map (·.name)).zipIdx := rfl

theorem operations_declared (document : Document) (home : Namespace) (substitutions : Substitutions)
    (kind : OperationKind) : (declared document home substitutions).operations kind =
      rootFields document.roots kind document.definitions := by
  cases kind <;> rfl

/-! ## Definitions -/

section

variable {roots : Roots} {home : Namespace} {ds : List Definition} {d : Definition}

/-- The root objects among definitions. -/
def rootObjects (roots : Roots) (ds : List Definition) : List Definition :=
  ds.filter (rootKind? roots · |>.isSome)

/-- The draft after definitions have been added. -/
structure Draft.Holds (roots : Roots) (home : Namespace) (ds : List Definition) (draft : Draft) :
    Prop where
  registry : draft.registry = declared ⟨ds, roots⟩ home []
  roots : draft.roots = (rootObjects roots ds).map (·.name)

theorem Draft.Holds.empty : Draft.Holds roots home [] ⟨empty home, [], []⟩ := ⟨rfl, rfl⟩

/-- A definition can be added behind others. -/
def CanFollow (roots : Roots) (ds : List Definition) (d : Definition) : Prop :=
  d.name ∉ (rootObjects roots ds).map (·.name) ∧
    if (rootKind? roots d).isSome then
      d.name ∉ (ds.filter (isType roots)).map (·.name) ∧ ((fieldsOf d.shape).map (·.name)).Nodup
    else if (Primitive.ofName? d.name).isSome then d.shape = .scalar
    else d.name ∉ (ds.filter (isType roots)).map (·.name)

theorem eq_of_rootKind? {kind : OperationKind} {e : Definition}
    (hd : rootKind? roots d = some kind) (he : rootKind? roots e = some kind) :
    d.name = e.name := by
  unfold rootKind? at hd he
  split at hd <;> split at he <;> grind

theorem rootFields_eq_nil {kind : OperationKind} (hkind : rootKind? roots d = some kind)
    (h : d.name ∉ (rootObjects roots ds).map (·.name)) : rootFields roots kind ds = [] := by
  rw [rootFields, List.filter_eq_nil_iff.mpr, List.flatMap_nil]
  intro e he hsome
  simp only [decide_eq_true_eq] at hsome
  exact h (List.mem_map.mpr ⟨e, List.mem_filter.mpr ⟨he, by rw [hsome]; rfl⟩,
    eq_of_rootKind? hsome hkind⟩)

theorem addOperations_eq_error {kind : OperationKind} {r : Registry} {f : Schema.Field}
    {fs : List Schema.Field} (h : f.name ∈ (r.operations kind).map (·.name)) :
    addOperations kind r (f :: fs) = .error (.duplicateOperation kind f.name) := by
  simp only [addOperations, if_pos h]

/-- Operations of one kind are added if their names are new and distinct. -/
theorem addOperations_ok {kind : OperationKind} {r : Registry} {fs : List Schema.Field} :
    (∃ r', addOperations kind r fs = .ok r') ↔
      (fs.map (·.name)).Nodup ∧ ∀ f ∈ fs, f.name ∉ (r.operations kind).map (·.name) := by
  induction fs generalizing r with
  | nil => simp [addOperations]
  | cons f fs ih =>
      have hadd : ∀ r' : Registry, r'.operations kind = r.operations kind ++ [f] →
          ((∃ out, addOperations kind r' fs = .ok out) ↔ (fs.map (·.name)).Nodup ∧
            ∀ g ∈ fs, g.name ∉ (r.operations kind).map (·.name) ∧ g.name ≠ f.name) := by
        intro r' hr'
        rw [ih, hr']
        simp only [List.map_append, List.map_cons, List.map_nil, List.mem_append,
          List.mem_singleton, not_or, ne_eq]
      by_cases hf : f.name ∈ (r.operations kind).map (·.name)
      · rw [addOperations_eq_error hf]
        refine iff_of_false ?_ fun h => h.2 f List.mem_cons_self hf
        rintro ⟨r', h⟩
        cases h
      · simp only [addOperations, if_neg hf]
        cases kind
        all_goals
          rw [hadd _ rfl]
          simp only [List.map_cons, List.nodup_cons, List.mem_map, List.forall_mem_cons]
          grind

theorem operations_of_addOperations {kind : OperationKind} {r r' : Registry}
    {fs : List Schema.Field} (h : addOperations kind r fs = .ok r') (k : OperationKind) :
    r'.operations k = r.operations k ++ if k = kind then fs else [] := by
  induction fs generalizing r with
  | nil =>
      cases h
      simp
  | cons f fs ih =>
      simp only [addOperations] at h
      split at h
      · cases h
      · cases kind
        all_goals
          rw [ih h]
          cases k <;> simp [operations]

theorem rootFields_append (roots : Roots) (kind : OperationKind) (ds : List Definition)
    (d : Definition) : rootFields roots kind (ds ++ [d]) =
      rootFields roots kind ds ++ if rootKind? roots d = some kind then fieldsOf d.shape else [] := by
  by_cases h : rootKind? roots d = some kind <;> simp [rootFields, h]

/-- A definition that becomes a type is entered behind the others. -/
theorem declared_append_of_isType (htype : isType roots d = true)
    (hnew : d.name ∉ (declared ⟨ds, roots⟩ home []).names) :
    declared ⟨ds ++ [d], roots⟩ home [] =
      (declared ⟨ds, roots⟩ home []).insert ⟨d, home.typePath d.name, none⟩ := by
  have hkind : rootKind? roots d = none := by
    rw [isType, Bool.and_eq_true] at htype
    exact Option.isNone_iff_eq_none.mp htype.1
  have hfilter : (ds ++ [d]).filter (isType roots) = ds.filter (isType roots) ++ [d] := by
    rw [List.filter_append, List.filter_singleton, htype, cond_true]
  have hfields : ∀ kind, rootFields roots kind (ds ++ [d]) = rootFields roots kind ds := by
    intro kind
    rw [rootFields_append, hkind, if_neg (by simp), List.append_nil]
  refine Registry.ext rfl ?types ?index (hfields .query) (hfields .mutation)
  case types =>
    rw [types_insert, types_declared, types_declared, hfilter, List.map_append]
    rfl
  case index =>
    change _ = Entries.put d.name _ _
    rw [Entries.put_of_not_mem hnew, index_declared, index_declared, types_declared,
      hfilter, List.map_append, List.zipIdx_append, List.length_map, List.length_map, Nat.zero_add]
    rfl

/-- A definition that becomes neither a type nor operations leaves the registry as it is. -/
theorem declared_append_of_isType_eq_false (htype : isType roots d = false)
    (hkind : rootKind? roots d = none) :
    declared ⟨ds ++ [d], roots⟩ home [] = declared ⟨ds, roots⟩ home [] := by
  have hfilter : (ds ++ [d]).filter (isType roots) = ds.filter (isType roots) := by
    rw [List.filter_append, List.filter_singleton, htype, cond_false, List.append_nil]
  refine Registry.ext rfl ?types ?index ?queries ?mutations
  case types => rw [types_declared, types_declared, hfilter]
  case index => rw [index_declared, index_declared, hfilter]
  all_goals simp [declared, rootFields_append, hkind]

/-- No type and only operations of one kind are added with a root object. -/
theorem eq_declared_append {kind : OperationKind} (hkind : rootKind? roots d = some kind)
    {r : Registry} (h : addOperations kind (declared ⟨ds, roots⟩ home []) (fieldsOf d.shape) = .ok r) :
    r = declared ⟨ds ++ [d], roots⟩ home [] := by
  obtain ⟨hhome, htypes, hindex⟩ := addOperations_types h
  have htype : isType roots d = false := by rw [isType, hkind]; rfl
  have hfilter : (ds ++ [d]).filter (isType roots) = ds.filter (isType roots) := by
    rw [List.filter_append, List.filter_singleton, htype, cond_false, List.append_nil]
  have hoperations : ∀ k, r.operations k = rootFields roots k (ds ++ [d]) := by
    intro k
    rw [operations_of_addOperations h k, operations_declared, rootFields_append, hkind]
    simp [eq_comm]
  refine Registry.ext hhome ?types ?index (hoperations .query) (hoperations .mutation)
  case types => rw [htypes, types_declared, types_declared, hfilter]
  case index => rw [hindex, index_declared, index_declared, hfilter]

theorem register_eq_ignored {r : Registry} {warning : Warning}
    (h : r.register d = .ignored warning) :
    (Primitive.ofName? d.name).isSome = true ∧ d.shape = .scalar := by
  unfold register at h
  split at h
  · split at h
    · exact ⟨‹_›, ‹_›⟩
    · cases h
  · split at h <;> cases h

theorem Draft.holds_of_add {draft draft' : Draft} (hd : draft.Holds roots home ds)
    (h : draft.add roots d = .ok draft') :
    draft'.Holds roots home (ds ++ [d]) ∧ CanFollow roots ds d := by
  unfold Draft.add at h
  rw [hd.roots, hd.registry, names_declared] at h
  dsimp only at h
  split at h
  · cases h
  · rename_i hfree
    obtain ⟨hroot, htype⟩ := not_or.mp hfree
    split at h
    · rename_i kind hkind
      rw [hkind] at htype
      obtain ⟨r, hr, h⟩ := Outcome.bind_ok.mp h
      cases h
      refine ⟨⟨eq_declared_append hkind hr, by simp [rootObjects, hkind]⟩, hroot, ?_⟩
      rw [if_pos (by rw [hkind]; rfl)]
      exact ⟨fun hn => htype ⟨rfl, hn⟩, (addOperations_ok.mp ⟨r, hr⟩).1⟩
    · rename_i hkind
      have hroots : rootObjects roots (ds ++ [d]) = rootObjects roots ds := by
        simp [rootObjects, hkind]
      rw [CanFollow, if_neg (by rw [hkind]; exact Bool.false_ne_true)]
      split at h
      · rename_i r hr
        obtain ⟨hbuiltin, hnew, rfl⟩ := register_eq_added hr
        cases h
        have hisType : isType roots d = true := by rw [isType, hkind, hbuiltin]; rfl
        refine ⟨⟨(declared_append_of_isType hisType hnew).symm, by rw [hroots]⟩, hroot, ?_⟩
        rw [if_neg (by rw [hbuiltin]; exact Bool.false_ne_true)]
        rw [names_declared] at hnew
        exact hnew
      · rename_i hr
        obtain ⟨hbuiltin, hshape⟩ := register_eq_ignored hr
        cases h
        have hisType : isType roots d = false := by simp [isType, hbuiltin]
        refine ⟨⟨(declared_append_of_isType_eq_false hisType hkind).symm, by rw [hroots]⟩, hroot, ?_⟩
        rw [if_pos hbuiltin]
        exact hshape
      · cases h

theorem Draft.exists_add {draft : Draft} (hd : draft.Holds roots home ds)
    (h : CanFollow roots ds d) : ∃ draft', draft.add roots d = .ok draft' := by
  obtain ⟨hroot, h⟩ := h
  unfold Draft.add
  rw [hd.roots, hd.registry, names_declared]
  dsimp only
  cases hkind : rootKind? roots d with
  | some kind =>
      rw [hkind, if_pos Option.isSome_some] at h
      rw [if_neg (not_or.mpr ⟨hroot, fun hn => h.1 hn.2⟩)]
      have hnil : (declared ⟨ds, roots⟩ home []).operations kind = [] :=
        (operations_declared ..).trans (rootFields_eq_nil hkind hroot)
      obtain ⟨r, hr⟩ := addOperations_ok.mpr ⟨h.2, by rw [hnil]; simp⟩
      exact ⟨_, Outcome.bind_ok.mpr ⟨r, hr, rfl⟩⟩
  | none =>
      rw [hkind, if_neg (by simp)] at h
      rw [if_neg (not_or.mpr ⟨hroot, fun hn => Bool.false_ne_true hn.1⟩)]
      unfold register
      rw [names_declared]
      by_cases hbuiltin : (Primitive.ofName? d.name).isSome
      · rw [if_pos hbuiltin] at h ⊢
        rw [if_pos h]
        exact ⟨_, rfl⟩
      · rw [if_neg hbuiltin] at h ⊢
        rw [if_neg h]
        exact ⟨_, rfl⟩

/-- A definition that takes its name, so that no other can have it. -/
def takesName (roots : Roots) (d : Definition) : Bool :=
  (rootKind? roots d).isSome || (Primitive.ofName? d.name).isNone

/-- What definitions need in order to be registered, in whatever order they come. -/
structure Registrable (roots : Roots) (ds : List Definition) : Prop where
  nodup : ((ds.filter (takesName roots)).map (·.name)).Nodup
  scalar : ∀ d ∈ ds, takesName roots d = false → d.shape = .scalar
  operations : ∀ d ∈ ds, (rootKind? roots d).isSome = true →
    ((fieldsOf d.shape).map (·.name)).Nodup

theorem Registrable.perm {ds' : List Definition} (hds : ds.Perm ds') (h : Registrable roots ds) :
    Registrable roots ds' where
  nodup := ((hds.filter _).map _).nodup h.nodup
  scalar d hd := h.scalar d (hds.mem_iff.mpr hd)
  operations d hd := h.operations d (hds.mem_iff.mpr hd)

theorem mem_names_taken {n : String} :
    n ∈ (ds.filter (takesName roots)).map (·.name) ↔
      n ∈ (rootObjects roots ds).map (·.name) ∨ n ∈ (ds.filter (isType roots)).map (·.name) := by
  have hiff : ∀ d, takesName roots d = true ↔
      (rootKind? roots d).isSome = true ∨ isType roots d = true := by
    intro d
    cases h : rootKind? roots d <;> simp [takesName, isType, h]
  simp only [rootObjects, List.mem_map, List.mem_filter, hiff, and_or_left, or_and_right, exists_or]

/-- No root has the name of a built-in scalar. -/
def NoRootBuiltin (roots : Roots) : Prop :=
  Primitive.ofName? roots.query = none ∧ Primitive.ofName? roots.mutation = none

theorem NoRootBuiltin.ofName? (h : NoRootBuiltin roots) (hd : (rootKind? roots d).isSome = true) :
    Primitive.ofName? d.name = none := by
  unfold rootKind? at hd
  split at hd
  · split at hd
    · rename_i e
      rw [e]
      exact h.1
    · split at hd
      · rename_i e
        rw [e]
        exact h.2
      · cases hd
  · cases hd

theorem canFollow_iff (h : NoRootBuiltin roots) :
    CanFollow roots ds d ↔
      (takesName roots d = true → d.name ∉ (ds.filter (takesName roots)).map (·.name)) ∧
        (takesName roots d = false → d.shape = .scalar) ∧
        ((rootKind? roots d).isSome = true → ((fieldsOf d.shape).map (·.name)).Nodup) := by
  rw [CanFollow, mem_names_taken, not_or]
  by_cases hkind : (rootKind? roots d).isSome = true
  · simp [takesName, hkind, and_assoc]
  · cases hbuiltin : Primitive.ofName? d.name with
    | none => simp [takesName, hkind, hbuiltin]
    | some primitive =>
        have hroot : d.name ∉ (rootObjects roots ds).map (·.name) := by
          rintro hn
          obtain ⟨e, he, hname⟩ := List.mem_map.mp hn
          rw [← hname, h.ofName? (List.mem_filter.mp he).2] at hbuiltin
          cases hbuiltin
        simp only [takesName, hkind, hbuiltin, hroot]
        simp

theorem registrable_append (h : NoRootBuiltin roots) :
    Registrable roots (ds ++ [d]) ↔ Registrable roots ds ∧ CanFollow roots ds d := by
  have hnodup : (((ds ++ [d]).filter (takesName roots)).map (·.name)).Nodup ↔
      ((ds.filter (takesName roots)).map (·.name)).Nodup ∧
        (takesName roots d = true → d.name ∉ (ds.filter (takesName roots)).map (·.name)) := by
    by_cases hd : takesName roots d = true
    · rw [List.filter_append, List.filter_singleton, hd, cond_true, List.map_append,
        List.map_singleton, ← List.concat_eq_append, List.nodup_concat, and_comm]
      simp
    · simp [hd]
  rw [canFollow_iff h]
  constructor
  · intro hall
    obtain ⟨hbefore, hnew⟩ := hnodup.mp hall.nodup
    obtain ⟨hscalar, hlast⟩ := List.forall_mem_append.mp hall.scalar
    obtain ⟨hoperations, hroot⟩ := List.forall_mem_append.mp hall.operations
    exact ⟨⟨hbefore, hscalar, hoperations⟩, hnew, hlast d List.mem_cons_self,
      hroot d List.mem_cons_self⟩
  · rintro ⟨hall, hnew, hscalar, hoperations⟩
    exact ⟨hnodup.mpr ⟨hall.nodup, hnew⟩,
      List.forall_mem_append.mpr ⟨hall.scalar, List.forall_mem_singleton.mpr hscalar⟩,
      List.forall_mem_append.mpr ⟨hall.operations, List.forall_mem_singleton.mpr hoperations⟩⟩

theorem Draft.holds_of_foldlM {draft : Draft}
    (h : ds.foldlM (Draft.add roots) ⟨empty home, [], []⟩ = .ok draft) :
    draft.Holds roots home ds := by
  induction ds using List.reverseRecOn generalizing draft with
  | nil =>
      cases h
      exact .empty
  | append_singleton ds d ih =>
      obtain ⟨before, hbefore, hadd⟩ := Outcome.foldlM_concat_ok.mp h
      exact (Draft.holds_of_add (ih hbefore) hadd).1

/-- What a definition met on the way had to be like. -/
theorem Draft.canFollow_of_foldlM {before after : List Definition} {draft : Draft}
    (h : (before ++ d :: after).foldlM (Draft.add roots) ⟨empty home, [], []⟩ = .ok draft) :
    CanFollow roots before d := by
  rw [List.append_cons, List.foldlM_append, Outcome.bind_ok] at h
  obtain ⟨_, h, _⟩ := h
  obtain ⟨_, hbefore, hadd⟩ := Outcome.foldlM_concat_ok.mp h
  exact (Draft.holds_of_add (Draft.holds_of_foldlM hbefore) hadd).2

/-- Definitions are registered exactly if they can be, whatever their order. -/
theorem foldlM_add_ok (h : NoRootBuiltin roots) :
    (∃ draft, ds.foldlM (Draft.add roots) ⟨empty home, [], []⟩ = .ok draft) ↔
      Registrable roots ds := by
  induction ds using List.reverseRecOn with
  | nil => exact iff_of_true ⟨_, rfl⟩ ⟨by simp, by simp, by simp⟩
  | append_singleton ds d ih =>
      rw [registrable_append h, ← ih]
      constructor
      · rintro ⟨draft, hdraft⟩
        obtain ⟨before, hbefore, _⟩ := Outcome.foldlM_concat_ok.mp hdraft
        exact ⟨⟨before, hbefore⟩, Draft.canFollow_of_foldlM hdraft⟩
      · rintro ⟨⟨before, hbefore⟩, hnext⟩
        obtain ⟨after, hafter⟩ := Draft.exists_add (Draft.holds_of_foldlM hbefore) hnext
        exact ⟨after, Outcome.foldlM_concat_ok.mpr ⟨before, hbefore, hafter⟩⟩

end

/-! ## Substitutions -/

theorem position?_substitute (r : Registry) (name path n : String) :
    (r.substitute name path).position? n = r.position? n := by
  unfold substitute
  split <;> rfl

theorem substitute_of_position? {r : Registry} {name : String} {i : Nat}
    (h : r.position? name = some i) (path : String) :
    r.substitute name path = r.substituteAt i path := by
  rw [substitute, h]

theorem substitute_of_not_mem {r : Registry} {name : String} (path : String)
    (h : name ∉ r.names) : r.substitute name path = r := by
  rw [substitute, position?, Entries.get?_eq_none_iff.mpr h]

/-- The type of a name is the one at its position. -/
theorem WellFormed.types_substitute {home : Namespace} {r : Registry} (h : r.WellFormed home)
    (name path : String) :
    (r.substitute name path).types = r.types.map (·.substitute name path) := by
  have hat : ∀ {i t}, r.types[i]? = some t → (r.position? name = some i ↔ t.name = name) := by
    intro i t ht
    rw [h.position?_eq_some_iff, ht, Option.map_some, Option.some.injEq]
  refine List.ext_getElem? fun j => ?_
  rw [List.getElem?_map]
  cases hi : r.position? name with
  | none =>
      rw [substitute, hi]
      cases ht : r.types[j]? with
      | none => rfl
      | some t =>
          have hne : t.name ≠ name := fun e => by rw [(hat ht).mpr e] at hi; cases hi
          rw [Option.map_some, RegisteredType.substitute_ne hne]
  | some i =>
      rw [substitute_of_position? hi, Registry.substituteAt, List.getElem?_modify]
      cases ht : r.types[j]? with
      | none => rfl
      | some t =>
          have hiff := hat ht
          rw [hi, Option.some.injEq] at hiff
          simp only [Option.map_eq_map, Option.map_some, RegisteredType.substitute, hiff]

/-- The registry after substitutions. -/
def replaced (r : Registry) (substitutions : Substitutions) : Registry :=
  { r with
    types := r.types.map fun t =>
      { t with substitution := (replacement? substitutions t.name).or t.substitution }
    sound := by
      rw [List.map_map]
      exact r.sound }

theorem replaced_nil (r : Registry) : r.replaced [] = r := by
  refine Registry.ext rfl ?_ rfl rfl rfl
  simp [replaced, replacement?, Entries.collect, Entries.get?]

theorem replaced_declared (document : Document) (home : Namespace) (substitutions : Substitutions) :
    (declared document home []).replaced substitutions = declared document home substitutions := by
  refine Registry.ext rfl ?_ rfl rfl rfl
  simp only [replaced, declared, List.map_map]
  apply List.map_congr_left
  intro d _
  simp [registered, RegisteredType.name, replacement?, Entries.collect, Entries.get?]

/-- Of several substitutions for one name the last one stays. -/
theorem replacement?_append (substitutions : Substitutions) (e : String × String) (name : String) :
    replacement? (substitutions ++ [e]) name =
      if e.1 = name then some e.2 else replacement? substitutions name := by
  rw [replacement?, Entries.collect, List.foldl_append, List.foldl_cons, List.foldl_nil,
    Entries.get?_put]
  rfl

theorem not_mem_of_replacement? {substitutions : Substitutions} {name : String}
    (h : replacement? substitutions name = none) : name ∉ Entries.names substitutions := by
  intro hmem
  have hcollected : name ∈ Entries.names (Entries.collect substitutions) := by
    rw [Entries.names_collect]
    exact List.mem_eraseDups.mpr hmem
  obtain ⟨⟨_, path⟩, hpath, rfl⟩ := List.mem_map.mp hcollected
  rw [replacement?, Entries.get?_eq_of_mem (Entries.nodup_names_collect substitutions) hpath] at h
  cases h

/-- One more substitution. -/
theorem replaced_append (r : Registry) (substitutions : Substitutions) (e : String × String) :
    (r.replaced (substitutions ++ [e])).types =
      (r.replaced substitutions).types.map (·.substitute e.1 e.2) := by
  simp only [replaced, List.map_map]
  apply List.map_congr_left
  intro t _
  simp only [Function.comp, replacement?_append, RegisteredType.substitute]
  by_cases h : t.definition.name = e.1
  · simp [RegisteredType.name, h]
  · simp [RegisteredType.name, h, Ne.symm h]

theorem Draft.registry_eq_substitute {draft draft' : Draft} {e : String × String}
    (h : draft.substitute e = .ok draft') :
    draft'.registry = draft.registry.substitute e.1 e.2 := by
  unfold Draft.substitute at h
  dsimp only at h
  split at h
  · cases h
  · split at h
    · rename_i hi
      cases h
      exact (substitute_of_position? hi e.2).symm
    · rename_i hi
      cases h
      exact (substitute_of_not_mem e.2 (Entries.get?_eq_none_iff.mp hi)).symm

theorem WellFormed.registry_of_substitutions {home : Namespace} {substitutions : Substitutions}
    {draft draft' : Draft} (hw : draft.registry.WellFormed home)
    (h : substitutions.foldlM Draft.substitute draft = .ok draft') :
    draft'.registry = draft.registry.replaced substitutions := by
  induction substitutions using List.reverseRecOn generalizing draft' with
  | nil =>
      cases h
      exact draft.registry.replaced_nil.symm
  | append_singleton substitutions e ih =>
      obtain ⟨before, hbefore, hafter⟩ := Outcome.foldlM_concat_ok.mp h
      have htypes := (hw.of_substitutions hbefore).types_substitute e.1 e.2
      rw [ih hbefore, ← replaced_append] at htypes
      rw [Draft.registry_eq_substitute hafter, ih hbefore]
      refine Registry.ext ?_ htypes ?_ ?_ ?_ <;> simp [replaced]

/-- Substitutions are made exactly if none of their paths is blank. -/
theorem foldlM_substitute_ok {substitutions : Substitutions} {draft : Draft} :
    (∃ draft', substitutions.foldlM Draft.substitute draft = .ok draft') ↔
      ∀ e ∈ substitutions, Text.isBlankText e.2 = false := by
  induction substitutions generalizing draft with
  | nil => simp [pure, Except.pure]
  | cons e rest ih =>
      rw [List.forall_mem_cons, List.foldlM_cons]
      cases hblank : Text.isBlankText e.2 with
      | true => simp [Draft.substitute, hblank, bind, Except.bind]
      | false =>
          rw [and_iff_right rfl]
          cases hi : draft.registry.position? e.1 with
          | none =>
              simp only [Draft.substitute, hblank, hi]
              exact ih
          | some i =>
              simp only [Draft.substitute, hblank, hi]
              exact ih

/-! ## Documents -/

section

variable {document : Document} {home : Namespace} {substitutions : Substitutions}

/-- If a document has a registry, it is the one that its definitions declare. -/
theorem eq_declared_of_build {r : Registry} {warnings : List Warning}
    (h : build document home substitutions = .ok (r, warnings)) :
    r = declared document home substitutions := by
  obtain ⟨draft, hdraft, h⟩ := Outcome.bind_ok.mp h
  obtain ⟨draft', hdraft', h⟩ := Outcome.bind_ok.mp h
  cases h
  rw [(wellFormed_of_definitions hdraft).1.registry_of_substitutions hdraft',
    (Draft.holds_of_foldlM hdraft).registry, replaced_declared]

theorem build_ok :
    (∃ r warnings, build document home substitutions = .ok (r, warnings)) ↔
      (∃ draft, document.definitions.foldlM (Draft.add document.roots) ⟨empty home, [], []⟩ =
        .ok draft) ∧ ∀ e ∈ substitutions, Text.isBlankText e.2 = false := by
  constructor
  · rintro ⟨r, warnings, h⟩
    obtain ⟨draft, hdraft, h⟩ := Outcome.bind_ok.mp h
    obtain ⟨draft', hdraft', _⟩ := Outcome.bind_ok.mp h
    exact ⟨⟨draft, hdraft⟩, foldlM_substitute_ok.mp ⟨draft', hdraft'⟩⟩
  · rintro ⟨⟨draft, hdraft⟩, hblank⟩
    obtain ⟨draft', hdraft'⟩ := foldlM_substitute_ok.mpr hblank
    exact ⟨_, _, Outcome.bind_ok.mpr ⟨draft, hdraft, Outcome.bind_ok.mpr ⟨draft', hdraft', rfl⟩⟩⟩

end

end Registry

end Graphwright
