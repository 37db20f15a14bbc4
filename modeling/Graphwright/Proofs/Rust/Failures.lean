import Graphwright.Backend
import Graphwright.Proofs.Code.Paths
import Graphwright.Proofs.Needs

/-!
# Which paths a client fails on

Of all the paths in a client, writing it out fails on one only if it is written in the client and
cannot be read: not as a path where it is to be imported, not as a type where it is spelled out.
-/
namespace Graphwright

namespace Rust

variable {α : Type}

/-- If the failure is about a path, this is one of `paths` and is not read. -/
def IsUnread (paths : List String) : Failure → Prop
  | .invalidPath path => path ∈ paths ∧ path? path = none
  | .invalidType path => path ∈ paths ∧ TypeText.ofText? path = none
  | _ => True

theorem IsUnread.mono {paths paths' : List String} (h : paths ⊆ paths') {f : Failure}
    (hf : IsUnread paths f) : IsUnread paths' f := by
  cases f with
  | invalidPath path => exact ⟨h hf.1, hf.2⟩
  | invalidType path => exact ⟨h hf.1, hf.2⟩
  | _ => trivial

/-- The computation fails on none of the paths in a client but those in `paths` that are not read. -/
abbrev FailsAt (paths : List String) (x : Except Failure α) : Prop := FailsOnly (IsUnread paths) x

variable {paths : List String}

/-! ## Names -/

theorem failsAt_ofName (name : String) : FailsAt paths (Ident.ofName name) := by
  unfold Ident.ofName
  split <;> split
  case isTrue => exact .ok _
  case isFalse => exact .error trivial
  case isTrue => exact .ok _
  case isFalse => exact .error trivial

theorem failsAt_escaped (name : String) : FailsAt paths (Ident.escaped name) := by
  unfold Ident.escaped
  split
  · exact failsAt_ofName _
  · split <;> exact failsAt_ofName _

theorem failsAt_nestedSelection (selection : Option String) :
    FailsAt paths (Imports.nestedSelection selection) := by
  cases selection with
  | none => exact .ok _
  | some param => exact (failsAt_escaped param).bind fun _ _ => .pure _

namespace Imports

variable (imports : Imports)

/-! ## Types and decoders -/

theorem failsAt_typeAt {path : String} (h : path ∈ paths) : FailsAt paths (imports.typeAt path) := by
  unfold typeAt
  split
  · exact .ok _
  · split
    · exact .ok _
    · exact .error ⟨h, ‹_›⟩

theorem failsAt_ownedType (t : Code.TypeExpr) (h : t.paths ⊆ paths) :
    FailsAt paths (imports.ownedType t) := by
  induction t with
  | builtin p => exact .ok _
  | named path => exact imports.failsAt_typeAt (h List.mem_cons_self)
  | list element ih => exact (ih h).bind fun _ _ => .pure _
  | nullable inner ih => exact (ih h).bind fun _ _ => .pure _
  | hydrated inner ih => exact (ih h).bind fun _ _ => .pure _
  | boxed inner ih => exact (ih h).bind fun _ _ => .pure _
  | self => exact .ok _
  | responseMap => exact .ok _

theorem failsAt_borrowedView (t : Code.TypeExpr) (h : t.paths ⊆ paths) :
    FailsAt paths (imports.borrowedView t) := by
  unfold borrowedView
  split
  case h_1 | h_3 => exact .ok _
  all_goals
    refine FailsOnly.bind (imports.failsAt_ownedType _ ?_) fun _ _ => .pure _
    exact h

theorem failsAt_returnType (t : Code.Returns) (h : t.type.paths ⊆ paths) :
    FailsAt paths (imports.returnType t) := by
  cases t with
  | value t => exact imports.failsAt_ownedType t h
  | fallible t => exact (imports.failsAt_ownedType t h).bind fun _ _ => .pure _
  | borrowed t => exact (imports.failsAt_borrowedView t h).bind fun _ _ => .pure _

theorem failsAt_decoder (d : Code.Decoder) (h : d.paths ⊆ paths) :
    FailsAt paths (imports.decoder d) := by
  induction d with
  | scalar p => exact .ok _
  | enumeration path => exact (imports.failsAt_typeAt (h List.mem_cons_self)).bind fun _ _ => .pure _
  | object path => exact (imports.failsAt_typeAt (h List.mem_cons_self)).bind fun _ _ => .pure _
  | customScalar path => exact (imports.failsAt_typeAt (h List.mem_cons_self)).bind fun _ _ => .pure _
  | list element ih => exact (ih h).bind fun _ _ => .pure _
  | nullable inner ih => exact (ih h).bind fun _ _ => .pure _
  | boxed inner ih => exact (ih h).bind fun _ _ => .pure _

/-! ## Methods -/

mutual

theorem failsAt_expr : (e : Code.Expr) → e.paths ⊆ paths → FailsAt paths (imports.expr e)
  | .var name, _ => (failsAt_escaped name).bind fun _ _ => .pure _
  | .field base name, h =>
      (failsAt_expr base h).bind fun _ _ => (failsAt_escaped name).bind fun _ _ => .pure _
  | .constant name, _ => (failsAt_ofName name).bind fun _ _ => .pure _
  | .arguments entries, h => by
      rw [expr]
      cases entries with
      | nil => exact .pure _
      | cons entry entries => exact (failsAt_entries (entry :: entries) h).bind fun _ _ => .pure _
  | .toInput value, h => (failsAt_expr value h).bind fun _ _ => .pure _
  | .methodCall receiver method args, h => by
      obtain ⟨hreceiver, hargs⟩ := List.append_subset.mp h
      exact (failsAt_expr receiver hreceiver).bind fun _ _ => (failsAt_escaped method).bind
        fun _ _ => (failsAt_exprs args hargs).bind fun _ _ => .pure _
  | .associatedCall function args, h =>
      (failsAt_escaped function).bind fun _ _ => (failsAt_exprs args h).bind fun _ _ => .pure _
  | .construct fields, h => (failsAt_fields fields h).bind fun _ _ => .pure _
  | .request kind action arguments selection, h =>
      (failsAt_expr arguments h).bind fun _ _ =>
        (failsAt_nestedSelection selection).bind fun _ _ => .pure _
  | .send request, h => (failsAt_expr request h).bind fun _ _ => .pure _
  | .attempt value, h => (failsAt_expr value h).bind fun _ _ => .pure _
  | .borrow value, h => (failsAt_expr value h).bind fun _ _ => .pure _
  | .decode source key decoder presence, h => by
      obtain ⟨hsource, hdecoder⟩ := List.append_subset.mp h
      exact (failsAt_expr source hsource).bind fun _ _ =>
        (imports.failsAt_decoder decoder hdecoder).bind fun _ _ => .pure _
  | .readHydrated property wireName type, h =>
      (failsAt_escaped property).bind fun _ _ =>
        (imports.failsAt_borrowedView type h).bind fun _ _ => .pure _
  | .delegate getter widened, _ => (failsAt_escaped getter).bind fun _ _ => .pure _
  | .success value, h => (failsAt_expr value h).bind fun _ _ => .pure _
  | .self, _ => .ok _
  | .str _, _ => .ok _
  | .unset, _ => .ok _

theorem failsAt_exprs : (es : List Code.Expr) → Code.Expr.pathsInList es ⊆ paths →
    FailsAt paths (imports.exprs es)
  | [], _ => .ok _
  | e :: es, h => by
      obtain ⟨hfirst, hrest⟩ := List.append_subset.mp h
      exact (failsAt_expr e hfirst).bind fun _ _ => (failsAt_exprs es hrest).bind fun _ _ => .pure _

theorem failsAt_entries : (entries : List (Code.Expr × Code.Expr)) →
    Code.Expr.pathsInEntries entries ⊆ paths → FailsAt paths (imports.entries entries)
  | [], _ => .ok _
  | (key, value) :: entries, h => by
      obtain ⟨hfirst, hrest⟩ := List.append_subset.mp h
      obtain ⟨hkey, hvalue⟩ := List.append_subset.mp hfirst
      exact (failsAt_expr key hkey).bind fun _ _ => (failsAt_expr value hvalue).bind fun _ _ =>
        (failsAt_entries entries hrest).bind fun _ _ => .pure _

theorem failsAt_fields : (fields : List (String × Code.Expr)) →
    Code.Expr.pathsInFields fields ⊆ paths → FailsAt paths (imports.fields fields)
  | [], _ => .ok _
  | (name, value) :: fields, h => by
      obtain ⟨hvalue, hrest⟩ := List.append_subset.mp h
      exact (failsAt_escaped name).bind fun _ _ => (failsAt_expr value hvalue).bind fun _ _ =>
        (failsAt_fields fields hrest).bind fun _ _ => .pure _

end

theorem failsAt_stmt (isLast : Bool) (s : Code.Stmt) (h : s.paths ⊆ paths) :
    FailsAt paths (imports.stmt isLast s) := by
  cases s with
  | bind name isMutable value =>
      exact (failsAt_escaped name).bind fun _ _ =>
        (imports.failsAt_expr value h).bind fun _ _ => .pure _
  | assign target value =>
      obtain ⟨htarget, hvalue⟩ := List.append_subset.mp h
      exact (imports.failsAt_expr target htarget).bind fun _ _ =>
        (imports.failsAt_expr value hvalue).bind fun _ _ => .pure _
  | insert map key value =>
      obtain ⟨h, hvalue⟩ := List.append_subset.mp h
      obtain ⟨hmap, hkey⟩ := List.append_subset.mp h
      exact (imports.failsAt_expr map hmap).bind fun _ _ => (imports.failsAt_expr key hkey).bind
        fun _ _ => (imports.failsAt_expr value hvalue).bind fun _ _ => .pure _
  | insertIfPresent map key param =>
      obtain ⟨hmap, hkey⟩ := List.append_subset.mp h
      exact (imports.failsAt_expr map hmap).bind fun _ _ => (imports.failsAt_expr key hkey).bind
        fun _ _ => (failsAt_escaped param).bind fun _ _ => .pure _
  | returnSelfIfAbsent param => exact (failsAt_escaped param).bind fun _ _ => .pure _
  | select selection field arguments nested =>
      obtain ⟨h, harguments⟩ := List.append_subset.mp h
      obtain ⟨hselection, hfield⟩ := List.append_subset.mp h
      exact (imports.failsAt_expr selection hselection).bind fun _ _ =>
        (imports.failsAt_expr field hfield).bind fun _ _ =>
          (imports.failsAt_expr arguments harguments).bind fun _ _ =>
            (failsAt_nestedSelection nested).bind fun _ _ => .pure _
  | «return» value => exact (imports.failsAt_expr value h).bind fun _ _ => .pure _

theorem failsAt_stmts (body : List Code.Stmt) (h : body.flatMap (·.paths) ⊆ paths) :
    FailsAt paths (imports.stmts body) := by
  induction body with
  | nil => exact .ok _
  | cons s body ih =>
      rw [List.flatMap_cons] at h
      obtain ⟨hfirst, hrest⟩ := List.append_subset.mp h
      exact (imports.failsAt_stmt _ s hfirst).bind fun _ _ => (ih hrest).bind fun _ _ => .pure _

theorem failsAt_method (placement : Placement) (m : Code.Method) (h : m.paths ⊆ paths) :
    FailsAt paths (imports.method placement m) := by
  -- The paths of the body are among those of the method even where the body is not written.
  obtain ⟨h, hbody⟩ := List.append_subset.mp h
  obtain ⟨hparams, hreturns⟩ := List.append_subset.mp h
  have hparam : ∀ param ∈ m.params, FailsAt paths (do
      let name ← Ident.escaped param.name
      return (name, ← imports.ownedType param.type)) := fun param hmem =>
    (failsAt_escaped param.name).bind fun _ _ =>
      (imports.failsAt_ownedType param.type fun p hp =>
        hparams (List.mem_flatMap.mpr ⟨param, hmem, hp⟩)).bind fun _ _ => .pure _
  unfold method
  refine (failsAt_escaped m.name).bind fun _ _ => (FailsOnly.mapM hparam).bind fun _ _ =>
    (imports.failsAt_returnType m.returns hreturns).bind fun _ _ => ?_
  split
  · exact .pure _
  · exact ((imports.failsAt_stmts m.body hbody).map some).bind fun _ _ => .pure _

theorem failsAt_methods (placement : Placement) (ms : List Code.Method)
    (h : ms.flatMap (·.paths) ⊆ paths) : FailsAt paths (imports.methods placement ms) :=
  .mapM fun m hm => imports.failsAt_method placement m fun _ hp =>
    h (List.mem_flatMap.mpr ⟨m, hm, hp⟩)

theorem failsAt_constants (cs : List Code.Constant) : FailsAt paths (constants cs) :=
  .mapM fun c _ => (failsAt_ofName c.name).bind fun _ _ => .pure _

/-! ## Items -/

theorem failsAt_enumeration (item : Code.Model) (name : Ident) (values : List Code.EnumValue) :
    FailsAt paths (imports.enumeration item name values) := by
  have hmembers : FailsAt paths (enumerationMembers values) :=
    (failsAt_constants _).bind fun _ _ =>
      (FailsOnly.mapM fun v _ => (failsAt_escaped v.accessor).bind fun _ _ =>
        (failsAt_ofName v.variant).bind fun _ _ => .pure _).bind fun _ _ =>
      (FailsOnly.mapM fun v _ => (failsAt_ofName v.variant).bind fun _ _ => .pure _).bind
        fun _ _ => .pure _
  exact (FailsOnly.mapM fun v _ => (failsAt_ofName v.variant).bind fun _ _ => .pure _).bind
    fun _ _ => hmembers.bind fun _ _ =>
      (FailsOnly.mapM fun v _ => (failsAt_ofName v.variant).bind fun _ _ =>
        (failsAt_ofName v.constant).bind fun _ _ => .pure _).bind fun _ _ =>
      (FailsOnly.mapM fun v _ => (failsAt_ofName v.constant).bind fun _ _ =>
        (failsAt_ofName v.variant).bind fun _ _ => .pure _).bind fun _ _ => .pure _

theorem failsAt_outputObject (item : Code.Model) (name : Ident) (properties : List Code.Property)
    (ms : List Code.Method) (conformances : List Code.Conformance)
    (hproperties : properties.flatMap (·.type.paths) ⊆ paths) (hms : ms.flatMap (·.paths) ⊆ paths)
    (hmethods : conformances.flatMap (fun c => c.methods.flatMap (·.paths)) ⊆ paths)
    (hinterfaces : conformances.map (·.interface) ⊆ paths) :
    FailsAt paths (imports.outputObject item name properties ms conformances) := by
  have hfields : FailsAt paths (properties.mapM fun p => do
      let field ← Ident.escaped p.name
      return (⟨docLines p.docs, field, ← imports.ownedType p.type⟩ : FieldDecl)) :=
    .mapM fun p hp => (failsAt_escaped p.name).bind fun _ _ =>
      (imports.failsAt_ownedType p.type fun _ hpath =>
        hproperties (List.mem_flatMap.mpr ⟨p, hp, hpath⟩)).bind fun _ _ => .pure _
  have himplementations : FailsAt paths (conformances.mapM fun c => do
      let interface ← imports.typeAt c.interface
      return Item.implementation none (some interface) (.named name)
        (← imports.methods .implemented c.methods)) :=
    .mapM fun c hc => (imports.failsAt_typeAt (hinterfaces (List.mem_map_of_mem hc))).bind
      fun _ _ => (imports.failsAt_methods .implemented c.methods fun _ hpath =>
        hmethods (List.mem_flatMap.mpr ⟨c, hc, hpath⟩)).bind fun _ _ => .pure _
  exact hfields.bind fun _ _ => (imports.failsAt_methods .inherent ms hms).bind fun _ _ =>
    himplementations.bind fun _ _ => .pure _

theorem failsAt_declarations (item : Code.Model)
    (h : item.artifact.valuePaths ++ item.artifact.interfacePaths ⊆ paths) :
    FailsAt paths (imports.declarations item) := by
  refine (failsAt_escaped item.name).bind fun name _ => ?_
  cases hitem : item.artifact with
  | customScalar => exact (failsAt_ofName _).bind fun _ _ => .pure _
  | enumeration values => exact imports.failsAt_enumeration item name values
  | inputObject cls =>
      rw [hitem] at h
      exact (failsAt_constants cls.constants).bind fun _ _ =>
        (imports.failsAt_methods .inherent cls.methods (List.append_subset.mp h).1).bind
          fun _ _ => .pure _
  | outputObject properties methods conformances =>
      rw [hitem] at h
      obtain ⟨h, hinterfaces⟩ := List.append_subset.mp h
      obtain ⟨h, hconformances⟩ := List.append_subset.mp h
      obtain ⟨hproperties, hmethods⟩ := List.append_subset.mp h
      exact imports.failsAt_outputObject item name properties methods conformances hproperties
        hmethods hconformances hinterfaces
  | interface accessors =>
      rw [hitem] at h
      exact (imports.failsAt_methods .declared accessors (List.append_subset.mp h).1).bind
        fun _ _ => .pure _
  | fieldSelection cls =>
      rw [hitem] at h
      exact (failsAt_constants cls.constants).bind fun _ _ =>
        (imports.failsAt_methods .inherent cls.methods (List.append_subset.mp h).1).bind
          fun _ _ => .pure _
  | service cls =>
      rw [hitem] at h
      exact (imports.failsAt_methods .inherent cls.methods (List.append_subset.mp h).1).bind
        fun _ _ => .pure _

theorem failsAt_know {path : String} (h : path ∈ paths) : FailsAt paths (imports.know path) := by
  unfold know
  split
  · exact .ok _
  · split
    · split
      · exact .ok _
      · exact .error ⟨h, ‹_›⟩
    · split
      · exact .ok _
      · exact .error ⟨h, ‹_›⟩

theorem failsAt_of (item : Code.Model) (ownPath : String) (defined : List String)
    (h : item.dependencies.artifacts ⊆ paths) : FailsAt paths (Imports.of item ownPath defined) :=
  (failsAt_escaped item.name).bind fun _ _ =>
    .foldlM (fun imports _ hp => imports.failsAt_know (h hp)) _

end Imports

/-! ## Files -/

theorem failsAt_checked (file : File) : FailsAt paths file.checked := by
  unfold File.checked
  split
  · exact .error trivial
  · split
    · exact .error trivial
    · exact .ok _

/-- The paths that an item depends on and those that are written in it. -/
def itemPaths (item : Code.Model) : List String :=
  item.dependencies.artifacts ++ (item.artifact.valuePaths ++ item.artifact.interfacePaths)

theorem failsAt_render (home : Namespace) (item : Code.Model) :
    FailsAt (itemPaths item) (render home item) := by
  refine FailsOnly.bind ?_ fun _ _ => .pure _
  unfold itemFile
  split
  · exact .error trivial
  · exact (Imports.failsAt_of item _ _ (List.subset_append_left _ _)).bind fun imports _ =>
      (imports.failsAt_declarations item (List.subset_append_right _ _)).bind fun _ _ =>
        failsAt_checked _

theorem failsAt_renderModules (home : Namespace) (items : List Code.Model) :
    FailsAt paths (renderModules home items) := by
  have hdeclarations : ∀ folder : Folder, FailsAt paths folder.declarations := fun folder =>
    (FailsOnly.mapM fun child _ => (failsAt_escaped child).bind fun _ _ => .pure _).bind fun _ _ =>
      (FailsOnly.mapM fun entry _ => (failsAt_escaped entry.1).bind fun _ _ =>
        (failsAt_escaped entry.2).bind fun _ _ => .pure _).bind fun _ _ => .pure _
  exact .mapM fun path _ => (hdeclarations _).bind fun _ _ =>
    (failsAt_checked _).bind fun _ _ => .pure _

end Rust

/-- A client is written out unless a path in it is not read or the failure is about no path. -/
theorem Backend.failsAt_render (backend : Backend) (home : Namespace) (items : List Code.Model) :
    Rust.FailsAt (items.flatMap Rust.itemPaths) (backend.render home items) := by
  cases backend
  refine FailsOnly.bind (.mapM fun item hitem f hf => ?_) fun _ _ =>
    (Rust.failsAt_renderModules home items).bind fun _ _ => .pure _
  exact (Rust.failsAt_render home item f hf).mono fun _ hp => List.mem_flatMap.mpr ⟨item, hitem, hp⟩

end Graphwright
