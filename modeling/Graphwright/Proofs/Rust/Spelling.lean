import Graphwright.Backend
import Graphwright.Proofs.Code.Names
import Graphwright.Proofs.Entries
import Graphwright.Proofs.Needs
import Graphwright.Proofs.Rust.Folders

/-!
# What can be spelled

Writing out an item needs nothing but that its names can be spelled as identifiers, escaped if they
are keywords. Paths that are no types and keywords where a name should stand are reported like any
other failure.
-/
namespace Graphwright.Rust

/-- A name can be spelled as an identifier. -/
def CanSpell (name : String) : Prop := (Ident.ofName name).isOk = true

instance (name : String) : Decidable (CanSpell name) := inferInstanceAs (Decidable (_ = true))

theorem Ident.rawName?_eq_none {name : String} (h : '#' ∉ name.toList) : rawName? name = none := by
  unfold rawName?
  split
  · rename_i cs heq
    exact absurd (by simp [heq]) h
  · rfl

theorem canSpell_iff_of_not_mem {name : String} (h : '#' ∉ name.toList) :
    CanSpell name ↔ Text.isIdentifier name.toList = true := by
  unfold CanSpell Ident.ofName
  rw [Ident.rawName?_eq_none h]
  dsimp only
  split
  · rename_i hname
    exact iff_of_true rfl hname
  · rename_i hname
    exact iff_of_false (fun h => nomatch h) hname

theorem needs_ofName (name : String) : Needs (CanSpell name) (Ident.ofName name) where
  needed i h := by rw [CanSpell, h]; rfl
  calm h f hf := by
    rw [CanSpell, hf] at h
    cases h

theorem canSpell_pathKeywords :
    ∀ name ∈ pathKeywords, CanSpell name ∧ CanSpell (name ++ "_") := by decide

theorem canSpell_rawKeywords :
    ∀ name ∈ rawKeywords, CanSpell name ∧ CanSpell ("r#" ++ name) := by decide

/-- Keywords can be spelled in one way or another. -/
theorem needs_escaped (name : String) : Needs (CanSpell name) (Ident.escaped name) := by
  unfold Ident.escaped
  split
  · rename_i hpath
    obtain ⟨hname, hescaped⟩ := canSpell_pathKeywords name hpath
    exact (needs_ofName _).iff (iff_of_true hescaped hname)
  · split
    · rename_i hraw
      obtain ⟨hname, hescaped⟩ := canSpell_rawKeywords name hraw
      exact (needs_ofName _).iff (iff_of_true hescaped hname)
    · exact needs_ofName name

/-- The names that the file of an item needs. -/
def itemNames (item : Code.Model) : List String := definedNames item ++ item.artifact.names

theorem needs_nestedSelection (selection : Option String) :
    Needs (∀ n ∈ selection.toList, CanSpell n) (Imports.nestedSelection selection) := by
  cases selection with
  | none => exact ⟨by simp, fun _ => .ok _⟩
  | some param => exact ((needs_escaped param).andThen fun _ _ => .pure _).iff (by simp)

namespace Imports

variable (imports : Imports)

/-! ## Types and decoders -/

theorem calm_typeAt (path : String) : Calm (imports.typeAt path) := by
  unfold typeAt
  split
  · exact .ok _
  · split
    · exact .ok _
    · exact .error rfl

theorem calm_ownedType (t : Code.TypeExpr) : Calm (imports.ownedType t) := by
  induction t with
  | builtin p => exact .ok _
  | named path => exact imports.calm_typeAt path
  | list element ih => exact ih.bind fun _ _ => .pure _
  | nullable inner ih => exact ih.bind fun _ _ => .pure _
  | hydrated inner ih => exact ih.bind fun _ _ => .pure _
  | boxed inner ih => exact ih.bind fun _ _ => .pure _
  | self => exact .ok _
  | responseMap => exact .ok _

theorem calm_borrowedView (t : Code.TypeExpr) : Calm (imports.borrowedView t) := by
  unfold borrowedView
  split
  case h_1 | h_3 => exact .ok _
  all_goals exact (imports.calm_ownedType _).bind fun _ _ => .pure _

theorem calm_returnType (t : Code.Returns) : Calm (imports.returnType t) := by
  cases t with
  | value t => exact imports.calm_ownedType t
  | fallible t => exact (imports.calm_ownedType t).bind fun _ _ => .pure _
  | borrowed t => exact (imports.calm_borrowedView t).bind fun _ _ => .pure _

theorem calm_decoder (d : Code.Decoder) : Calm (imports.decoder d) := by
  induction d with
  | scalar p => exact .ok _
  | enumeration path => exact (imports.calm_typeAt path).bind fun _ _ => .pure _
  | object path => exact (imports.calm_typeAt path).bind fun _ _ => .pure _
  | customScalar path => exact (imports.calm_typeAt path).bind fun _ _ => .pure _
  | list element ih => exact ih.bind fun _ _ => .pure _
  | nullable inner ih => exact ih.bind fun _ _ => .pure _
  | boxed inner ih => exact ih.bind fun _ _ => .pure _

/-! ## Methods -/

mutual

theorem needs_expr : (e : Code.Expr) → Needs (∀ n ∈ e.names, CanSpell n) (imports.expr e)
  | .var name => ((needs_escaped name).andThen fun _ _ => .pure _).iff (by simp [Code.Expr.names])
  | .field base name =>
      ((needs_expr base).bind fun _ _ => (needs_escaped name).andThen fun _ _ => .pure _).iff
        (by simp [Code.Expr.names, or_imp, forall_and])
  | .constant name => ((needs_ofName name).andThen fun _ _ => .pure _).iff
      (by simp [Code.Expr.names])
  | .arguments entries => by
      rw [expr, Code.Expr.names]
      cases entries with
      | nil => exact ⟨by simp [Code.Expr.namesInEntries], fun _ => .pure _⟩
      | cons entry entries => exact (needs_entries (entry :: entries)).andThen fun _ _ => .pure _
  | .toInput value => (needs_expr value).andThen fun _ _ => .pure _
  | .methodCall receiver method args =>
      ((needs_expr receiver).bind fun _ _ => (needs_escaped method).bind fun _ _ =>
        (needs_exprs args).andThen fun _ _ => .pure _).iff
        (by simp [Code.Expr.names, or_imp, forall_and])
  | .associatedCall function args =>
      ((needs_escaped function).bind fun _ _ => (needs_exprs args).andThen fun _ _ => .pure _).iff
        (by simp [Code.Expr.names])
  | .construct fields => (needs_fields fields).andThen fun _ _ => .pure _
  | .request kind action arguments selection =>
      ((needs_expr arguments).bind fun _ _ =>
        (needs_nestedSelection selection).andThen fun _ _ => .pure _).iff
        (by simp [Code.Expr.names, or_imp, forall_and])
  | .send request => (needs_expr request).andThen fun _ _ => .pure _
  | .attempt value => (needs_expr value).andThen fun _ _ => .pure _
  | .borrow value => (needs_expr value).andThen fun _ _ => .pure _
  | .decode source key decoder presence =>
      (needs_expr source).andThen fun _ _ => (imports.calm_decoder decoder).bind fun _ _ => .pure _
  | .readHydrated property wireName type =>
      ((needs_escaped property).andThen fun _ _ =>
        (imports.calm_borrowedView type).bind fun _ _ => .pure _).iff (by simp [Code.Expr.names])
  | .delegate getter widened =>
      ((needs_escaped getter).andThen fun _ _ => .pure _).iff (by simp [Code.Expr.names])
  | .success value => (needs_expr value).andThen fun _ _ => .pure _
  | .self => ⟨by simp [Code.Expr.names], fun _ => .ok _⟩
  | .str _ => ⟨by simp [Code.Expr.names], fun _ => .ok _⟩
  | .unset => ⟨by simp [Code.Expr.names], fun _ => .ok _⟩

theorem needs_exprs : (es : List Code.Expr) →
    Needs (∀ n ∈ Code.Expr.namesInList es, CanSpell n) (imports.exprs es)
  | [] => ⟨by simp [Code.Expr.namesInList], fun _ => .ok _⟩
  | e :: es =>
      ((needs_expr e).bind fun _ _ => (needs_exprs es).andThen fun _ _ => .pure _).iff
        (by simp [Code.Expr.namesInList, or_imp, forall_and])

theorem needs_entries : (entries : List (Code.Expr × Code.Expr)) →
    Needs (∀ n ∈ Code.Expr.namesInEntries entries, CanSpell n) (imports.entries entries)
  | [] => ⟨by simp [Code.Expr.namesInEntries], fun _ => .ok _⟩
  | (key, value) :: entries =>
      ((needs_expr key).bind fun _ _ => (needs_expr value).bind fun _ _ =>
        (needs_entries entries).andThen fun _ _ => .pure _).iff
        (by simp [Code.Expr.namesInEntries, or_imp, forall_and])

theorem needs_fields : (fields : List (String × Code.Expr)) →
    Needs (∀ n ∈ Code.Expr.namesInFields fields, CanSpell n) (imports.fields fields)
  | [] => ⟨by simp [Code.Expr.namesInFields], fun _ => .ok _⟩
  | (name, value) :: fields =>
      ((needs_escaped name).bind fun _ _ => (needs_expr value).bind fun _ _ =>
        (needs_fields fields).andThen fun _ _ => .pure _).iff
        (by simp [Code.Expr.namesInFields, or_imp, forall_and])

end

theorem needs_stmt (isLast : Bool) (s : Code.Stmt) :
    Needs (∀ n ∈ s.names, CanSpell n) (imports.stmt isLast s) := by
  cases s with
  | bind name isMutable value =>
      exact ((needs_escaped name).bind fun _ _ =>
        (imports.needs_expr value).andThen fun _ _ => .pure _).iff (by simp [Code.Stmt.names])
  | assign target value =>
      exact ((imports.needs_expr target).bind fun _ _ =>
        (imports.needs_expr value).andThen fun _ _ => .pure _).iff
        (by simp [Code.Stmt.names, or_imp, forall_and])
  | insert map key value =>
      exact ((imports.needs_expr map).bind fun _ _ => (imports.needs_expr key).bind fun _ _ =>
        (imports.needs_expr value).andThen fun _ _ => .pure _).iff
        (by simp [Code.Stmt.names, or_imp, forall_and])
  | insertIfPresent map key param =>
      exact ((imports.needs_expr map).bind fun _ _ => (imports.needs_expr key).bind fun _ _ =>
        (needs_escaped param).andThen fun _ _ => .pure _).iff
        (by simp [Code.Stmt.names, or_imp, forall_and])
  | returnSelfIfAbsent param =>
      exact ((needs_escaped param).andThen fun _ _ => .pure _).iff (by simp [Code.Stmt.names])
  | select selection field arguments nested =>
      exact ((imports.needs_expr selection).bind fun _ _ => (imports.needs_expr field).bind
        fun _ _ => (imports.needs_expr arguments).bind fun _ _ =>
          (needs_nestedSelection nested).andThen fun _ _ => .pure _).iff
        (by simp [Code.Stmt.names, or_imp, forall_and])
  | «return» value => exact (imports.needs_expr value).andThen fun _ _ => .pure _

theorem needs_stmts (body : List Code.Stmt) :
    Needs (∀ n ∈ body.flatMap (·.names), CanSpell n) (imports.stmts body) := by
  induction body with
  | nil => exact ⟨by simp, fun _ => .ok _⟩
  | cons s body ih =>
      exact ((imports.needs_stmt body.isEmpty s).bind fun _ _ => ih.andThen fun _ _ => .pure _).iff
        (by simp only [List.flatMap_cons, List.mem_append, or_imp, forall_and])

/-- What stands in front of a body, and the body unless there is none. -/
def placedNames (placement : Placement) (m : Code.Method) : List String :=
  if placement = .declared then m.signatureNames else m.names

theorem needs_method (placement : Placement) (m : Code.Method) :
    Needs (∀ n ∈ placedNames placement m, CanSpell n) (imports.method placement m) := by
  have hparams : Needs (∀ p ∈ m.params, CanSpell p.name) (m.params.mapM fun param => do
      let name ← Ident.escaped param.name
      return (name, ← imports.ownedType param.type)) :=
    .mapM fun p _ => (needs_escaped p.name).andThen fun _ _ =>
      (imports.calm_ownedType p.type).bind fun _ _ => .pure _
  have hsignature : (∀ n ∈ m.signatureNames, CanSpell n)
      ↔ CanSpell m.name ∧ ∀ p ∈ m.params, CanSpell p.name := by
    simp [Code.Method.signatureNames]
  unfold method placedNames
  split
  · refine ((needs_escaped m.name).bind fun _ _ => hparams.andThen fun _ _ =>
      (imports.calm_returnType m.returns).bind fun _ _ => (Calm.pure _).bind fun _ _ =>
        .pure _).iff hsignature.symm
  · refine ((needs_escaped m.name).bind fun _ _ => hparams.bind fun _ _ =>
      (imports.calm_returnType m.returns).andThen fun _ _ =>
        ((imports.needs_stmts m.body).map some).andThen fun _ _ => .pure _).iff ?_
    rw [← and_assoc, ← hsignature, Code.Method.names]
    simp only [List.mem_append, or_imp, forall_and]

theorem needs_methods (placement : Placement) (ms : List Code.Method) :
    Needs (∀ n ∈ ms.flatMap (placedNames placement), CanSpell n)
      (imports.methods placement ms) :=
  (Needs.mapM fun m _ => imports.needs_method placement m).iff
    (by simp only [List.forall_mem_flatMap])

theorem needs_constants (cs : List Code.Constant) :
    Needs (∀ n ∈ cs.map (·.name), CanSpell n) (constants cs) :=
  (Needs.mapM fun c _ => (needs_ofName c.name).andThen fun _ _ => .pure _).iff
    (by simp only [List.forall_mem_map])

/-! ## Items -/

theorem needs_customScalar (item : Code.Model) (name : Ident) :
    Needs (CanSpell (markerName item)) (imports.customScalar item name) :=
  (needs_ofName _).andThen fun _ _ => .pure _

theorem needs_enumerationMembers (values : List Code.EnumValue) :
    Needs (∀ v ∈ values, CanSpell v.constant ∧ CanSpell v.variant ∧ CanSpell v.accessor)
      (enumerationMembers values) := by
  have hconstants := needs_constants (values.map fun v => ⟨v.constant, v.wireName⟩)
  have haccessors : Needs (∀ v ∈ values, CanSpell v.accessor ∧ CanSpell v.variant)
      (values.mapM fun v => do
        return simpleFunction [] true (← Ident.escaped v.accessor) .none .self
          (.ownPath (← Ident.ofName v.variant))) :=
    .mapM fun v _ => (needs_escaped _).bind fun _ _ => (needs_ofName _).andThen fun _ _ => .pure _
  have hall : Needs (∀ v ∈ values, CanSpell v.variant)
      (values.mapM fun v => do return Expr.ownPath (← Ident.ofName v.variant)) :=
    .mapM fun v _ => (needs_ofName _).andThen fun _ _ => .pure _
  refine (hconstants.bind fun _ _ => haccessors.bind fun _ _ => hall.andThen fun _ _ =>
    .pure _).iff ?_
  simp only [List.map_map, List.forall_mem_map, Function.comp_apply, ← forall_and]
  grind

theorem needs_enumeration (item : Code.Model) (name : Ident) (values : List Code.EnumValue) :
    Needs (∀ v ∈ values, CanSpell v.constant ∧ CanSpell v.variant ∧ CanSpell v.accessor)
      (imports.enumeration item name values) := by
  have hvariants : Needs (∀ v ∈ values, CanSpell v.variant) (values.mapM fun v => do
      return (⟨docLines v.docs, ← Ident.ofName v.variant⟩ : Variant)) :=
    .mapM fun v _ => (needs_ofName _).andThen fun _ _ => .pure _
  refine (hvariants.bind fun _ _ => (needs_enumerationMembers values).bind fun _ _ =>
    (Needs.mapM fun v _ => (needs_ofName v.variant).bind fun _ _ =>
      (needs_ofName v.constant).andThen fun _ _ => .pure _).bind fun _ _ =>
    (Needs.mapM fun v _ => (needs_ofName v.constant).bind fun _ _ =>
      (needs_ofName v.variant).andThen fun _ _ => .pure _).andThen fun _ _ => .pure _).iff ?_
  grind

theorem needs_class (cs : List Code.Constant) (ms : List Code.Method)
    {α : Type} {f : List Member → List Member → Except Failure α}
    (hf : ∀ constants methods, Calm (f constants methods)) :
    Needs (∀ n ∈ cs.map (·.name) ++ ms.flatMap (·.names), CanSpell n)
      (do f (← constants cs) (← imports.methods .inherent ms)) :=
  ((needs_constants cs).bind fun _ _ => (imports.needs_methods .inherent ms).andThen
    fun _ _ => hf _ _).iff (by simp only [List.mem_append, or_imp, forall_and]; rfl)

theorem needs_outputObject (item : Code.Model) (name : Ident) (properties : List Code.Property)
    (ms : List Code.Method) (conformances : List Code.Conformance) :
    Needs (∀ n ∈ (Code.Artifact.outputObject properties ms conformances).names, CanSpell n)
      (imports.outputObject item name properties ms conformances) := by
  have hfields : Needs (∀ p ∈ properties, CanSpell p.name) (properties.mapM fun p => do
      let field ← Ident.escaped p.name
      return (⟨docLines p.docs, field, ← imports.ownedType p.type⟩ : FieldDecl)) :=
    .mapM fun p _ => (needs_escaped _).andThen fun _ _ =>
      (imports.calm_ownedType p.type).bind fun _ _ => .pure _
  have himplementations : Needs (∀ c ∈ conformances, ∀ n ∈ c.methods.flatMap (·.names), CanSpell n)
      (conformances.mapM fun c => do
        let interface ← imports.typeAt c.interface
        return Item.implementation none (some interface) (.named name)
          (← imports.methods .implemented c.methods)) :=
    .mapM fun c _ => (imports.calm_typeAt _).andThen fun _ _ =>
      (imports.needs_methods .implemented c.methods).andThen fun _ _ => .pure _
  refine (hfields.bind fun _ _ => (imports.needs_methods .inherent ms).bind fun _ _ =>
    himplementations.andThen fun _ _ => .pure _).iff ?_
  simp only [Code.Artifact.names, List.mem_append, or_imp, forall_and, List.forall_mem_map,
    List.forall_mem_flatMap, and_assoc]
  rfl

theorem needs_declarations (item : Code.Model) :
    Needs (∀ n ∈ itemNames item, CanSpell n) (imports.declarations item) := by
  unfold declarations itemNames definedNames
  cases item.artifact with
  | customScalar =>
      exact ((needs_escaped item.name).bind fun name _ =>
        imports.needs_customScalar item name).iff (by simp [Code.Artifact.names])
  | enumeration values =>
      exact ((needs_escaped item.name).bind fun name _ =>
        imports.needs_enumeration item name values).iff
        (by simp only [List.cons_append, List.nil_append, List.forall_mem_cons,
          Code.Artifact.names, List.forall_mem_flatMap, List.not_mem_nil]; simp)
  | inputObject cls =>
      exact ((needs_escaped item.name).bind fun name _ =>
        imports.needs_class cls.constants cls.methods fun _ _ => .pure _).iff
        (by simp [Code.Artifact.names])
  | outputObject properties methods conformances =>
      exact ((needs_escaped item.name).bind fun name _ =>
        imports.needs_outputObject item name properties methods conformances).iff (by simp)
  | interface accessors =>
      exact ((needs_escaped item.name).bind fun name _ =>
        (imports.needs_methods .declared accessors).andThen fun _ _ => .pure _).iff
        (by rw [List.cons_append, List.nil_append, List.forall_mem_cons]; rfl)
  | fieldSelection cls =>
      exact ((needs_escaped item.name).bind fun name _ =>
        imports.needs_class cls.constants cls.methods fun _ _ => .pure _).iff
        (by simp [Code.Artifact.names])
  | service cls =>
      exact ((needs_escaped item.name).bind fun name _ =>
        (imports.needs_methods .inherent cls.methods).andThen fun _ _ => .pure _).iff
        (by rw [List.cons_append, List.nil_append, List.forall_mem_cons]; rfl)

theorem calm_know (path : String) : Calm (imports.know path) := by
  unfold know
  split
  · exact .ok _
  · split
    · split
      · exact .ok _
      · exact .error rfl
    · split
      · exact .ok _
      · exact .error rfl

theorem needs_of (item : Code.Model) (ownPath : String) (defined : List String) :
    Needs (CanSpell item.name) (Imports.of item ownPath defined) :=
  (needs_escaped item.name).andThen fun _ _ => Calm.foldlM calm_know _

/-! ## Implementations -/

/-- Whatever an object implements is spelled as a path. -/
def SpellsPaths (item : Code.Model) : Prop :=
  ∀ properties methods conformances,
    item.artifact = .outputObject properties methods conformances →
    ∀ c ∈ conformances, ∀ type, imports.typeAt c.interface = .ok type → type.form = .path

theorem isInterface_of_form {type : Ty} (h : type.form = .path) : type.isInterface = true := by
  unfold Ty.isInterface
  split
  · cases h
  · exact decide_eq_true h

theorem isInterface_runtimeType (item : Code.RuntimeItem) (args : List Ty) :
    (imports.runtimeType item args).isInterface = true :=
  isInterface_of_form rfl

theorem isPrintable_items : ∀ i ∈ imports.items, i.isPrintable = true := by
  intro i hi
  rcases List.mem_append.mp hi with hi | hi
  · split at hi
    · cases hi
    · rw [List.mem_singleton.mp hi]
      rfl
  · obtain ⟨_, _, rfl⟩ := List.mem_map.mp hi
    rfl

theorem isPrintable_declarations {item : Code.Model} {items : List Item}
    (h : imports.declarations item = .ok items) (hpaths : imports.SpellsPaths item) :
    ∀ i ∈ items, i.isPrintable = true := by
  obtain ⟨name, _, h⟩ := Outcome.bind_ok.mp h
  cases hitem : item.artifact with
  | customScalar =>
      rw [hitem] at h
      obtain ⟨_, _, h⟩ := Outcome.bind_ok.mp h
      cases h
      simp [Item.isPrintable, isInterface_runtimeType]
  | enumeration values =>
      rw [hitem] at h
      obtain ⟨_, _, h⟩ := Outcome.bind_ok.mp h
      obtain ⟨_, _, h⟩ := Outcome.bind_ok.mp h
      obtain ⟨_, _, h⟩ := Outcome.bind_ok.mp h
      obtain ⟨_, _, h⟩ := Outcome.bind_ok.mp h
      cases h
      simp [Item.isPrintable, isInterface_runtimeType]
  | inputObject cls =>
      rw [hitem] at h
      obtain ⟨_, _, h⟩ := Outcome.bind_ok.mp h
      obtain ⟨_, _, h⟩ := Outcome.bind_ok.mp h
      cases h
      simp [Item.isPrintable, isInterface_runtimeType]
  | outputObject properties methods conformances =>
      rw [hitem] at h
      obtain ⟨_, _, h⟩ := Outcome.bind_ok.mp h
      obtain ⟨_, _, h⟩ := Outcome.bind_ok.mp h
      obtain ⟨implementations, himplementations, h⟩ := Outcome.bind_ok.mp h
      cases h
      refine List.forall_mem_append.mpr ⟨by simp [Item.isPrintable, isInterface_runtimeType],
        fun i hi => ?_⟩
      obtain ⟨c, hc, hi⟩ := (Outcome.mem_mapM himplementations).mp hi
      obtain ⟨type, htype, hi⟩ := Outcome.bind_ok.mp hi
      obtain ⟨_, _, hi⟩ := Outcome.bind_ok.mp hi
      cases hi
      exact isInterface_of_form (hpaths _ _ _ hitem c hc type htype)
  | interface accessors =>
      rw [hitem] at h
      obtain ⟨_, _, h⟩ := Outcome.bind_ok.mp h
      cases h
      simp [Item.isPrintable]
  | fieldSelection cls =>
      rw [hitem] at h
      obtain ⟨_, _, h⟩ := Outcome.bind_ok.mp h
      obtain ⟨_, _, h⟩ := Outcome.bind_ok.mp h
      cases h
      simp [Item.isPrintable]
  | service cls =>
      rw [hitem] at h
      obtain ⟨_, _, h⟩ := Outcome.bind_ok.mp h
      cases h
      simp [Item.isPrintable]

end Imports

/-! ## Files -/

theorem File.eq_of_checked {file file' : File} (h : file.checked = .ok file') : file' = file := by
  unfold File.checked at h
  split at h
  · cases h
  · split at h
    · cases h
    · cases h
      rfl

theorem calm_checked {file : File} (h : ∀ i ∈ file.items, i.isPrintable = true) :
    Calm file.checked := by
  unfold File.checked
  split
  · exact .error rfl
  · rw [if_neg (by simpa using h)]
    exact .ok file

/-- The names of an item can be spelled if it has been written out. -/
theorem canSpell_of_render {home : Namespace} {item : Code.Model} {file : GeneratedFile}
    (h : render home item = .ok file) : ∀ n ∈ itemNames item, CanSpell n := by
  obtain ⟨_, h, _⟩ := Outcome.bind_ok.mp h
  unfold itemFile at h
  split at h
  · cases h
  · obtain ⟨imports, _, h⟩ := Outcome.bind_ok.mp h
    obtain ⟨items, hitems, _⟩ := Outcome.bind_ok.mp h
    exact (imports.needs_declarations item).needed items hitems

/-- An item whose names can be spelled is written out, or it is reported why not. -/
theorem calm_render {home : Namespace} {item : Code.Model}
    (hnames : ∀ n ∈ itemNames item, CanSpell n)
    (hpaths : ∀ imports, Imports.of item (itemPath home item) (definedNames item) = .ok imports →
      imports.SpellsPaths item) : Calm (render home item) := by
  refine Calm.bind ?_ fun _ _ => .pure _
  unfold itemFile
  split
  · exact .error rfl
  · refine ((Imports.needs_of item _ _).calm (hnames _ ?_)).bind fun imports himports =>
      ((imports.needs_declarations item).calm hnames).bind fun items hitems =>
        calm_checked fun i hi => ?_
    · exact List.mem_append_left _ List.mem_cons_self
    · rcases List.mem_append.mp hi with hi | hi
      · exact imports.isPrintable_items i hi
      · exact imports.isPrintable_declarations hitems (hpaths imports himports) i hi

/-! ## Module indexes -/

namespace Folder

theorem needs_declarations (folder : Folder) :
    Needs ((∀ child ∈ folder.children, CanSpell child) ∧
      ∀ entry ∈ folder.items, CanSpell entry.1 ∧ CanSpell entry.2) folder.declarations :=
  (Needs.mapM fun child _ => (needs_escaped child).andThen fun _ _ => .pure _).bind fun _ _ =>
    (Needs.mapM fun entry _ => (needs_escaped entry.1).bind fun _ _ =>
      (needs_escaped entry.2).andThen fun _ _ => .pure _).andThen fun _ _ => .pure _

theorem isPrintable_declarations {folder : Folder} {items : List Item}
    (h : folder.declarations = .ok items) : ∀ i ∈ items, i.isPrintable = true := by
  obtain ⟨children, hchildren, h⟩ := Outcome.bind_ok.mp h
  obtain ⟨exported, hexported, h⟩ := Outcome.bind_ok.mp h
  cases h
  intro i hi
  rcases List.mem_append.mp hi with hi | hi
  · obtain ⟨child, _, h⟩ := (Outcome.mem_mapM hchildren).mp hi
    obtain ⟨_, _, h⟩ := Outcome.bind_ok.mp h
    cases h
    rfl
  · obtain ⟨entry, hentry, hi⟩ := List.mem_flatten.mp hi
    obtain ⟨_, _, h⟩ := (Outcome.mem_mapM hexported).mp hentry
    obtain ⟨_, _, h⟩ := Outcome.bind_ok.mp h
    obtain ⟨_, _, h⟩ := Outcome.bind_ok.mp h
    cases h
    rcases List.mem_cons.mp hi with rfl | hi
    · rfl
    · rw [List.mem_singleton.mp hi]
      rfl

theorem needs_index (home : Namespace) (folder : Folder) :
    Needs ((∀ child ∈ folder.children, CanSpell child) ∧
      ∀ entry ∈ folder.items, CanSpell entry.1 ∧ CanSpell entry.2) (folder.index home) :=
  folder.needs_declarations.andThen fun _ h =>
    (calm_checked (isPrintable_declarations h)).bind fun _ _ => .pure _

theorem mem_of_mem_items {items : List Code.Model} {path : List String} {entry : String × String}
    (h : entry ∈ (ofItems items path).items) :
    ∃ item ∈ items, entry = (moduleName item.name, item.name) := by
  rw [items_ofItems] at h
  obtain ⟨item, hitem, rfl⟩ := List.mem_map.mp (Entries.mem_of_mem_sorted h)
  exact ⟨item, List.mem_of_mem_filter hitem, rfl⟩

end Folder

/-- What the module indexes need of an item. -/
structure Indexable (item : Code.Model) : Prop where
  folder : ∀ n ∈ item.folder, CanSpell n
  file : CanSpell (moduleName item.name)
  name : CanSpell item.name

theorem calm_renderModules {home : Namespace} {items : List Code.Model}
    (h : ∀ item ∈ items, Indexable item) : Calm (renderModules home items) := by
  rw [renderModules_eq]
  refine Calm.mapM fun path _ => (Folder.needs_index home _).calm ⟨fun child hchild => ?_,
    fun entry hentry => ?_⟩
  · obtain ⟨item, hitem, hchild⟩ := Folder.mem_children.mp hchild
    exact (h item hitem).folder child (hchild.subset (by simp))
  · obtain ⟨item, hitem, rfl⟩ := Folder.mem_of_mem_items hentry
    dsimp only
    exact ⟨(h item hitem).file, (h item hitem).name⟩

theorem canSpell_of_renderModules {home : Namespace} {items : List Code.Model}
    {files : List GeneratedFile} (h : renderModules home items = .ok files) :
    ∀ item ∈ items, CanSpell (moduleName item.name) := by
  intro item hitem
  rw [renderModules_eq] at h
  obtain ⟨file, _, hfile⟩ := Outcome.exists_of_mapM h (Folder.mem_paths hitem)
  have hentries := ((Folder.needs_index home _).needed file hfile).2
  have hhere : item ∈ items.filter (·.folder = item.folder) :=
    List.mem_filter.mpr ⟨hitem, decide_eq_true rfl⟩
  have hmem : moduleName item.name ∈ Entries.names (Folder.ofItems items item.folder).items := by
    rw [Folder.items_ofItems, Entries.mem_names_sorted, Entries.names, List.map_map]
    exact List.mem_map.mpr ⟨item, hhere, by rw [Function.comp_apply]⟩
  obtain ⟨entry, hentry, he⟩ := List.mem_map.mp hmem
  rw [← he]
  exact (hentries entry hentry).1

end Graphwright.Rust

namespace Graphwright

/-! ## Clients -/

/-- All that the files of an item and the module indexes need. -/
structure Rust.Writable (home : Namespace) (item : Code.Model) : Prop where
  indexable : Indexable item
  names : ∀ n ∈ itemNames item, CanSpell n
  paths : ∀ imports, Imports.of item (itemPath home item) (definedNames item) = .ok imports →
    imports.SpellsPaths item

theorem Backend.calm_render {home : Namespace} {items : List Code.Model}
    (h : ∀ item ∈ items, Rust.Writable home item) (backend : Backend) :
    Calm (backend.render home items) := by
  cases backend
  exact (Calm.mapM fun item hitem => Rust.calm_render (h item hitem).names (h item hitem).paths).bind
    fun _ _ => (Rust.calm_renderModules fun item hitem => (h item hitem).indexable).bind
      fun _ _ => .pure _

theorem Backend.canSpell_of_render {backend : Backend} {home : Namespace} {items : List Code.Model}
    {files : List GeneratedFile} (h : backend.render home items = .ok files) :
    ∀ item ∈ items, Rust.CanSpell (Rust.moduleName item.name) ∧
      ∀ n ∈ Rust.itemNames item, Rust.CanSpell n := by
  cases backend
  obtain ⟨rendered, hrendered, h⟩ := Outcome.bind_ok.mp h
  obtain ⟨indexes, hindexes, _⟩ := Outcome.bind_ok.mp h
  intro item hitem
  obtain ⟨file, _, hfile⟩ := Outcome.exists_of_mapM hrendered hitem
  exact ⟨Rust.canSpell_of_renderModules hindexes item hitem, Rust.canSpell_of_render hfile⟩

end Graphwright
