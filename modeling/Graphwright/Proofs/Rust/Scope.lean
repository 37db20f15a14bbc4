import Graphwright.Proofs.Rust.Imports

/-!
# Names that a file uses

Every name that stands for a type in a generated file, and every name at the head of a longer path,
is one that the prelude, the language, the file or its table of imports gives a meaning to. Types
that a hand-written path spells in full speak for themselves.
-/
namespace Graphwright.Rust

/-! ## Names in syntax -/

namespace Ty

mutual

/-- The names that start the paths of a type satisfy `S`. -/
def Within (S : Ident → Prop) : Ty → Prop
  | path [] name args => S name ∧ AllWithin S args
  | path (head :: _) _ args => S head ∧ AllWithin S args
  | reference _ elem => elem.Within S
  | slice elem => elem.Within S
  | verbatim _ _ => True

def AllWithin (S : Ident → Prop) : List Ty → Prop
  | [] => True
  | t :: ts => t.Within S ∧ AllWithin S ts

end

end Ty

/-- The head of a path satisfies `S`, unless the path is a single name, as that of a variable is. -/
def PathWithin (S : Ident → Prop) : List Ident → Prop
  | head :: _ :: _ => S head
  | _ => True

namespace Expr

mutual

/-- The types and the longer paths in an expression start with names that satisfy `S`. -/
def Within (S : Ident → Prop) : Expr → Prop
  | path segments => PathWithin S segments
  | .function segments type => PathWithin S segments ∧ type.Within S
  | str _ => True
  | call f args => f.Within S ∧ AllWithin S args
  | methodCall receiver _ args => receiver.Within S ∧ AllWithin S args
  | field base _ => base.Within S
  | borrow value => value.Within S
  | dereference value => value.Within S
  | attempt value => value.Within S
  | paren value => value.Within S
  | array elems => AllWithin S elems
  | tuple elems => AllWithin S elems
  | construct fields => S (.plain "Self") ∧ FieldsWithin S fields
  | closure _ type body => (∀ t, type = Option.some t → t.Within S) ∧ body.Within S
  | select subject arms => subject.Within S ∧ ArmsWithin S arms

def AllWithin (S : Ident → Prop) : List Expr → Prop
  | [] => True
  | e :: es => e.Within S ∧ AllWithin S es

def FieldsWithin (S : Ident → Prop) : List (Ident × Option Expr) → Prop
  | [] => True
  | (_, Option.some e) :: fs => e.Within S ∧ FieldsWithin S fs
  | (_, none) :: fs => FieldsWithin S fs

def ArmsWithin (S : Ident → Prop) : List (Option (List Ident) × Expr) → Prop
  | [] => True
  | (pattern, e) :: arms => PathWithin S (pattern.getD []) ∧ e.Within S ∧ ArmsWithin S arms

end

theorem allWithin_iff {S : Ident → Prop} {es : List Expr} :
    AllWithin S es ↔ ∀ e ∈ es, e.Within S := by
  induction es with
  | nil => simp [AllWithin]
  | cons e es ih => simp [AllWithin, ih]

theorem armsWithin_iff {S : Ident → Prop} {arms : List (Option (List Ident) × Expr)} :
    ArmsWithin S arms ↔ ∀ arm ∈ arms, PathWithin S (arm.1.getD []) ∧ arm.2.Within S := by
  induction arms with
  | nil => simp [ArmsWithin]
  | cons arm arms ih =>
      obtain ⟨pattern, e⟩ := arm
      simp [ArmsWithin, ih, and_assoc]

end Expr

def Stmt.Within (S : Ident → Prop) : Stmt → Prop
  | bind _ _ value => value.Within S
  | bindOrReturnSelf _ => True
  | ifPresent _ body => body.Within S
  | assign target value => target.Within S ∧ value.Within S
  | perform value => value.Within S
  | .return value => value.Within S
  | result value => value.Within S

structure Function.Within (S : Ident → Prop) (f : Function) : Prop where
  params : ∀ p ∈ f.params, p.2.Within S
  returns : f.returns.Within S
  body : ∀ s ∈ f.body.getD [], s.Within S

/-- A constant is a text. -/
def Member.Within (S : Ident → Prop) : Member → Prop
  | constant _ _ _ => Ty.staticText.Within S
  | function f => f.Within S

def TypeParam.Within (S : Ident → Prop) (p : TypeParam) : Prop := ∀ t, p.bound = some t → t.Within S

namespace Item

/-- The names that an item relies on satisfy `S`. What is imported is not looked at. -/
def Within (S : Ident → Prop) : Item → Prop
  | use _ _ _ => True
  | module _ _ => True
  | enumeration _ derives _ _ => ∀ n ∈ derives, S (.plain n)
  | record _ derives _ param fields =>
    (∀ n ∈ derives, S (.plain n)) ∧ (∀ p, param = some p → p.Within S) ∧
      ∀ f ∈ fields, f.type.Within S
  | trait _ _ members => ∀ m ∈ members, m.Within S
  | implementation param implemented type members =>
    (∀ p, param = some p → p.Within S) ∧ (∀ t, implemented = some t → t.Within S) ∧
      type.Within S ∧ ∀ m ∈ members, m.Within S
  | typeAlias _ _ type => type.Within S

/-- The names that an item defines, its type parameter among them. -/
def defines : Item → List Ident
  | use _ _ _ => []
  | module _ name => [name]
  | enumeration _ _ name _ => [name]
  | record _ _ name param _ => name :: (param.map (·.name)).toList
  | trait _ name _ => [name]
  | implementation param _ _ _ => (param.map (·.name)).toList
  | typeAlias _ name _ => [name]

/-- The names that an item brings into scope from elsewhere. -/
def brings : Item → List Ident
  | use _ _ names => names
  | _ => []

end Item

/-- The types of the language that generated code uses. -/
def primitiveNames : List String := ["bool", "f64", "i32", "str"]

/-! ## Names that code is generated with -/

namespace Imports

/-- `S` holds of all names that a table of imports lets generated code use. -/
structure CoveredBy (S : Ident → Prop) (imports : Imports) : Prop where
  reserved : ∀ n ∈ reservedNames, S (.plain n)
  primitive : ∀ n ∈ primitiveNames, S (.plain n)
  library : S clientLibrary
  runtime : ∀ item ∈ imports.runtime, S (.plain item.name)
  typeAt : ∀ path type, imports.typeAt path = .ok type → type.Within S

section Covered

variable {S : Ident → Prop} {imports : Imports} (hS : imports.CoveredBy S)

include hS

/-! ### Types -/

theorem CoveredBy.standard {name : String} {args : List Ty}
    (hn : name ∈ reservedNames ∨ name ∈ primitiveNames) (ha : Ty.AllWithin S args) :
    (Ty.standard name args).Within S := by
  refine ⟨?_, ha⟩
  exact hn.elim (hS.reserved name) (hS.primitive name)

theorem CoveredBy.selfName : S (.plain "Self") := hS.reserved "Self" (by decide)

theorem CoveredBy.self : Ty.self.Within S := ⟨hS.selfName, trivial⟩

theorem CoveredBy.string : Ty.string.Within S := hS.standard (Or.inl (by decide)) trivial

theorem CoveredBy.staticText : Ty.staticText.Within S :=
  hS.standard (Or.inr (by decide)) trivial

theorem CoveredBy.ofPrimitive (p : Primitive) : (Ty.ofPrimitive p).Within S := by
  cases p with
  | text => exact hS.string
  | _ => exact hS.standard (Or.inr (by decide)) trivial

theorem CoveredBy.runtimeType (item : Code.RuntimeItem) {args : List Ty}
    (ha : Ty.AllWithin S args) : (imports.runtimeType item args).Within S := by
  unfold Imports.runtimeType
  split
  · rename_i h
    exact ⟨hS.runtime item h, ha⟩
  · exact ⟨hS.library, ha⟩

/-- A path below an item of the client library. -/
theorem CoveredBy.runtimePath (item : Code.RuntimeItem) (i : Ident) :
    PathWithin S (imports.runtimePath item ++ [i]) := by
  unfold Imports.runtimePath
  split
  · rename_i h
    exact hS.runtime item h
  · exact hS.library

theorem CoveredBy.ownPath (i : Ident) : (Expr.ownPath i).Within S :=
  hS.selfName

theorem CoveredBy.responseMap :
    (imports.runtimeType .map [.string, imports.runtimeType .value []]).Within S :=
  hS.runtimeType _ ⟨hS.string, hS.runtimeType _ trivial, trivial⟩

theorem CoveredBy.fallible {type : Ty} (h : type.Within S) : (imports.fallible type).Within S :=
  hS.standard (Or.inl (by decide)) ⟨h, hS.runtimeType _ trivial, trivial⟩

theorem CoveredBy.ownedType {t : Code.TypeExpr} {type : Ty} (h : imports.ownedType t = .ok type) :
    type.Within S := by
  induction t generalizing type with
  | builtin p => cases h; exact hS.ofPrimitive p
  | named path => exact hS.typeAt path type h
  | self => cases h; exact hS.self
  | responseMap => cases h; exact hS.responseMap
  | list element ih =>
      obtain ⟨elem, helem, h⟩ := Outcome.bind_ok.mp h
      cases h
      exact hS.standard (Or.inl (by decide)) ⟨ih helem, trivial⟩
  | nullable inner ih =>
      obtain ⟨elem, helem, h⟩ := Outcome.bind_ok.mp h
      cases h
      exact hS.standard (Or.inl (by decide)) ⟨ih helem, trivial⟩
  | boxed inner ih =>
      obtain ⟨elem, helem, h⟩ := Outcome.bind_ok.mp h
      cases h
      exact hS.standard (Or.inl (by decide)) ⟨ih helem, trivial⟩
  | hydrated inner ih =>
      obtain ⟨elem, helem, h⟩ := Outcome.bind_ok.mp h
      cases h
      exact hS.runtimeType _ ⟨ih helem, trivial⟩

theorem CoveredBy.adapter {type function : String} (hn : type ∈ reservedNames) :
    ∀ e, Imports.adapter type function = some e → e.Within S := by
  rintro _ ⟨⟩
  exact hS.reserved type hn

theorem CoveredBy.optionView {elem : Ty} {function : String} (h : elem.Within S) :
    (Ty.standard "Option" [elem]).Within S ∧
      ∀ e, Imports.adapter "Option" function = some e → e.Within S :=
  ⟨hS.standard (Or.inl (by decide)) ⟨h, trivial⟩, hS.adapter (by decide)⟩

/-- The view of a value, and the function that makes it. -/
theorem CoveredBy.borrowedView {t : Code.TypeExpr} {view : Ty × Option Expr}
    (h : imports.borrowedView t = .ok view) :
    view.1.Within S ∧ ∀ e, view.2 = some e → e.Within S := by
  unfold Imports.borrowedView at h
  split at h
  · cases h
    exact ⟨hS.standard (Or.inr (by decide)) trivial, hS.adapter (by decide)⟩
  · obtain ⟨elem, helem, h⟩ := Outcome.bind_ok.mp h
    cases h
    have helem : elem.Within S := hS.ownedType helem
    exact ⟨helem, hS.adapter (by decide)⟩
  · cases h
    have htext : (Ty.standard "str" []).Within S := hS.standard (Or.inr (by decide)) trivial
    exact hS.optionView htext
  · obtain ⟨elem, helem, h⟩ := Outcome.bind_ok.mp h
    cases h
    have helem : elem.Within S := hS.ownedType helem
    exact hS.optionView helem
  · obtain ⟨elem, helem, h⟩ := Outcome.bind_ok.mp h
    cases h
    have helem : elem.Within S := hS.ownedType helem
    exact hS.optionView helem
  · obtain ⟨elem, helem, h⟩ := Outcome.bind_ok.mp h
    cases h
    have helem : elem.Within S := hS.ownedType helem
    exact hS.optionView helem
  · obtain ⟨elem, helem, h⟩ := Outcome.bind_ok.mp h
    cases h
    have helem : elem.Within S := hS.ownedType helem
    refine ⟨helem, ?_⟩
    rintro _ ⟨⟩
    exact ⟨by simp, trivial⟩
  · obtain ⟨elem, helem, h⟩ := Outcome.bind_ok.mp h
    cases h
    have helem : elem.Within S := hS.ownedType helem
    exact ⟨helem, by simp⟩

theorem CoveredBy.returnType {returns : Code.Returns} {type : Ty}
    (h : imports.returnType returns = .ok type) : type.Within S := by
  cases returns with
  | value t => exact hS.ownedType h
  | fallible t =>
      obtain ⟨type', htype, h⟩ := Outcome.bind_ok.mp h
      cases h
      exact hS.fallible (hS.ownedType htype)
  | borrowed t =>
      obtain ⟨view, hview, h⟩ := Outcome.bind_ok.mp h
      cases h
      exact hS.fallible (hS.borrowedView hview).1

/-! ### Expressions -/

theorem CoveredBy.valueClosure {body : Expr} (h : body.Within S) :
    (imports.valueClosure body).Within S := by
  refine ⟨?_, h⟩
  rintro _ ⟨⟩
  exact hS.runtimeType _ trivial

theorem CoveredBy.decoder {d : Code.Decoder} {e : Expr} (h : imports.decoder d = .ok e) :
    e.Within S := by
  induction d generalizing e with
  | scalar p =>
      cases h
      exact ⟨hS.runtimePath _ _, hS.ofPrimitive p⟩
  | enumeration path =>
      obtain ⟨type, htype, h⟩ := Outcome.bind_ok.mp h
      cases h
      exact ⟨hS.runtimePath _ _, hS.typeAt path type htype⟩
  | object path =>
      obtain ⟨type, htype, h⟩ := Outcome.bind_ok.mp h
      cases h
      exact ⟨hS.runtimePath _ _, hS.typeAt path type htype⟩
  | customScalar path =>
      obtain ⟨type, htype, h⟩ := Outcome.bind_ok.mp h
      cases h
      exact ⟨hS.runtimePath _ _, hS.typeAt path type htype⟩
  | list element ih =>
      obtain ⟨function, hfunction, h⟩ := Outcome.bind_ok.mp h
      cases h
      exact hS.valueClosure ⟨hS.runtimePath _ _, trivial, ih hfunction, trivial⟩
  | nullable inner ih =>
      obtain ⟨function, hfunction, h⟩ := Outcome.bind_ok.mp h
      cases h
      exact hS.valueClosure ⟨hS.runtimePath _ _, trivial, ih hfunction, trivial⟩
  | boxed inner ih =>
      obtain ⟨function, hfunction, h⟩ := Outcome.bind_ok.mp h
      cases h
      have hinner : function.Within S := ih hfunction
      refine hS.valueClosure ⟨⟨?_, trivial, trivial⟩, hS.reserved "Box" (by decide), trivial⟩
      cases inner <;> exact hinner

end Covered

section Syntax

variable {S : Ident → Prop} {imports : Imports}

theorem nestedSelection_within {selection : Option String} {e : Expr}
    (h : nestedSelection selection = .ok e) : e.Within S := by
  cases selection with
  | none => cases h; trivial
  | some param =>
      obtain ⟨i, _, h⟩ := Outcome.bind_ok.mp h
      cases h
      exact ⟨trivial, ⟨trivial, trivial⟩, trivial⟩

-- The recursion is that of `Imports.expr`, with a twin for each of its lists.
mutual

theorem CoveredBy.expr (hS : imports.CoveredBy S) : (e : Code.Expr) →
    ∀ {spelled : Expr}, imports.expr e = .ok spelled → spelled.Within S
  | .var name, _, h => by
      obtain ⟨i, _, h⟩ := Outcome.bind_ok.mp h
      cases h
      trivial
  | .self, _, h => by cases h; trivial
  | .field base name, _, h => by
      obtain ⟨base', hbase, h⟩ := Outcome.bind_ok.mp h
      obtain ⟨i, _, h⟩ := Outcome.bind_ok.mp h
      cases h
      have hbase : base'.Within S := hS.expr base hbase
      exact hbase
  | .constant name, _, h => by
      obtain ⟨i, _, h⟩ := Outcome.bind_ok.mp h
      cases h
      exact hS.ownPath i
  | .str text, _, h => by cases h; trivial
  | .arguments entries, _, h => by
      unfold Imports.expr at h
      dsimp only at h
      split at h
      · cases h
        exact ⟨hS.runtimePath _ _, trivial⟩
      · obtain ⟨entries', hentries, h⟩ := Outcome.bind_ok.mp h
        cases h
        have hentries : Expr.AllWithin S entries' := hS.entries entries hentries
        exact ⟨hS.runtimePath _ _, hentries, trivial⟩
  | .toInput value, _, h => by
      obtain ⟨value', hvalue, h⟩ := Outcome.bind_ok.mp h
      cases h
      exact ⟨hS.expr value hvalue, trivial⟩
  | .methodCall receiver method args, _, h => by
      obtain ⟨receiver', hreceiver, h⟩ := Outcome.bind_ok.mp h
      obtain ⟨i, _, h⟩ := Outcome.bind_ok.mp h
      obtain ⟨args', hargs, h⟩ := Outcome.bind_ok.mp h
      cases h
      exact ⟨hS.expr receiver hreceiver, hS.exprs args hargs⟩
  | .associatedCall function args, _, h => by
      obtain ⟨i, _, h⟩ := Outcome.bind_ok.mp h
      obtain ⟨args', hargs, h⟩ := Outcome.bind_ok.mp h
      cases h
      exact ⟨hS.ownPath i, hS.exprs args hargs⟩
  | .construct fields, _, h => by
      obtain ⟨fields', hfields, h⟩ := Outcome.bind_ok.mp h
      cases h
      exact ⟨hS.selfName, hS.fields fields hfields⟩
  | .unset, _, h => by
      cases h
      exact hS.runtimePath _ _
  | .request kind action arguments selection, _, h => by
      obtain ⟨arguments', harguments, h⟩ := Outcome.bind_ok.mp h
      obtain ⟨selection', hselection, h⟩ := Outcome.bind_ok.mp h
      cases h
      exact ⟨hS.runtimePath _ _, trivial, hS.expr arguments harguments,
        nestedSelection_within hselection, trivial⟩
  | .send request, _, h => by
      obtain ⟨request', hrequest, h⟩ := Outcome.bind_ok.mp h
      cases h
      have hrequest : request'.Within S := hS.expr request hrequest
      exact ⟨trivial, hrequest, trivial⟩
  | .attempt value, _, h => by
      obtain ⟨value', hvalue, h⟩ := Outcome.bind_ok.mp h
      cases h
      have hvalue : value'.Within S := hS.expr value hvalue
      exact hvalue
  | .borrow value, _, h => by
      obtain ⟨value', hvalue, h⟩ := Outcome.bind_ok.mp h
      cases h
      have hvalue : value'.Within S := hS.expr value hvalue
      exact hvalue
  | .decode source key d presence, _, h => by
      obtain ⟨source', hsource, h⟩ := Outcome.bind_ok.mp h
      obtain ⟨d', hd, h⟩ := Outcome.bind_ok.mp h
      cases h
      exact ⟨hS.runtimePath _ _, hS.expr source hsource, trivial, hS.decoder hd, trivial⟩
  | .readHydrated property wireName type, _, h => by
      obtain ⟨i, _, h⟩ := Outcome.bind_ok.mp h
      obtain ⟨⟨view, adapter⟩, hview, h⟩ := Outcome.bind_ok.mp h
      have hadapter := (hS.borrowedView hview).2
      cases h
      cases adapter with
      | none => exact ⟨trivial, trivial, trivial⟩
      | some function => exact ⟨⟨trivial, trivial, trivial⟩, hadapter function rfl, trivial⟩
  | .delegate getter widened, _, h => by
      obtain ⟨i, _, h⟩ := Outcome.bind_ok.mp h
      cases h
      have hcall : (Expr.call (.ownPath i) [.self]).Within S := ⟨hS.ownPath i, trivial, trivial⟩
      cases widened with
      | false => exact hcall
      | true => exact ⟨hcall, trivial, trivial⟩
  | .success value, _, h => by
      obtain ⟨value', hvalue, h⟩ := Outcome.bind_ok.mp h
      cases h
      exact ⟨trivial, hS.expr value hvalue, trivial⟩

theorem CoveredBy.exprs (hS : imports.CoveredBy S) : (es : List Code.Expr) →
    ∀ {spelled : List Expr}, imports.exprs es = .ok spelled → Expr.AllWithin S spelled
  | [], _, h => by cases h; trivial
  | e :: es, _, h => by
      obtain ⟨first, hfirst, h⟩ := Outcome.bind_ok.mp h
      obtain ⟨rest, hrest, h⟩ := Outcome.bind_ok.mp h
      cases h
      exact ⟨hS.expr e hfirst, hS.exprs es hrest⟩

theorem CoveredBy.entries (hS : imports.CoveredBy S) : (es : List (Code.Expr × Code.Expr)) →
    ∀ {spelled : List Expr}, imports.entries es = .ok spelled → Expr.AllWithin S spelled
  | [], _, h => by cases h; trivial
  | (key, value) :: es, _, h => by
      obtain ⟨key', hkey, h⟩ := Outcome.bind_ok.mp h
      obtain ⟨value', hvalue, h⟩ := Outcome.bind_ok.mp h
      obtain ⟨rest, hrest, h⟩ := Outcome.bind_ok.mp h
      cases h
      exact ⟨⟨hS.expr key hkey, hS.expr value hvalue, trivial⟩,
        hS.entries es hrest⟩

theorem CoveredBy.fields (hS : imports.CoveredBy S) : (fs : List (String × Code.Expr)) →
    ∀ {spelled : List (Ident × Option Expr)}, imports.fields fs = .ok spelled →
      Expr.FieldsWithin S spelled
  | [], _, h => by cases h; trivial
  | (name, value) :: fs, _, h => by
      obtain ⟨i, _, h⟩ := Outcome.bind_ok.mp h
      obtain ⟨value', hvalue, h⟩ := Outcome.bind_ok.mp h
      obtain ⟨rest, hrest, h⟩ := Outcome.bind_ok.mp h
      cases h
      exact ⟨hS.expr value hvalue, hS.fields fs hrest⟩

end

theorem CoveredBy.stmt (hS : imports.CoveredBy S) {isLast : Bool} {s : Code.Stmt} {spelled : Stmt}
    (h : imports.stmt isLast s = .ok spelled) : spelled.Within S := by
  cases s with
  | bind name isMutable value =>
      obtain ⟨i, _, h⟩ := Outcome.bind_ok.mp h
      obtain ⟨value', hvalue, h⟩ := Outcome.bind_ok.mp h
      cases h
      exact hS.expr value hvalue
  | assign target value =>
      obtain ⟨target', htarget, h⟩ := Outcome.bind_ok.mp h
      obtain ⟨value', hvalue, h⟩ := Outcome.bind_ok.mp h
      cases h
      exact ⟨hS.expr target htarget, hS.expr value hvalue⟩
  | insert map key value =>
      obtain ⟨map', hmap, h⟩ := Outcome.bind_ok.mp h
      obtain ⟨key', hkey, h⟩ := Outcome.bind_ok.mp h
      obtain ⟨value', hvalue, h⟩ := Outcome.bind_ok.mp h
      cases h
      exact ⟨hS.expr map hmap, hS.expr key hkey, hS.expr value hvalue, trivial⟩
  | insertIfPresent map key param =>
      obtain ⟨map', hmap, h⟩ := Outcome.bind_ok.mp h
      obtain ⟨key', hkey, h⟩ := Outcome.bind_ok.mp h
      obtain ⟨i, _, h⟩ := Outcome.bind_ok.mp h
      cases h
      exact ⟨hS.expr map hmap, hS.expr key hkey, ⟨trivial, trivial⟩, trivial⟩
  | returnSelfIfAbsent param =>
      obtain ⟨i, _, h⟩ := Outcome.bind_ok.mp h
      cases h
      trivial
  | select selection field arguments nested =>
      obtain ⟨selection', hselection, h⟩ := Outcome.bind_ok.mp h
      obtain ⟨field', hfield, h⟩ := Outcome.bind_ok.mp h
      obtain ⟨arguments', harguments, h⟩ := Outcome.bind_ok.mp h
      obtain ⟨nested', hnested, h⟩ := Outcome.bind_ok.mp h
      cases h
      exact ⟨hS.expr selection hselection, hS.expr field hfield, hS.expr arguments harguments,
        nestedSelection_within hnested, trivial⟩
  | «return» value =>
      obtain ⟨value', hvalue, h⟩ := Outcome.bind_ok.mp h
      have hvalue : value'.Within S := hS.expr value hvalue
      cases h
      split <;> exact hvalue

theorem CoveredBy.stmts (hS : imports.CoveredBy S) {body : List Code.Stmt} {spelled : List Stmt}
    (h : imports.stmts body = .ok spelled) : ∀ s ∈ spelled, s.Within S := by
  induction body generalizing spelled with
  | nil => cases h; exact List.forall_mem_nil _
  | cons s body ih =>
      obtain ⟨first, hfirst, h⟩ := Outcome.bind_ok.mp h
      obtain ⟨rest, hrest, h⟩ := Outcome.bind_ok.mp h
      cases h
      exact List.forall_mem_cons.mpr ⟨hS.stmt hfirst, ih hrest⟩

theorem CoveredBy.method (hS : imports.CoveredBy S) {placement : Placement} {m : Code.Method}
    {member : Member} (h : imports.method placement m = .ok member) : member.Within S := by
  obtain ⟨name, _, h⟩ := Outcome.bind_ok.mp h
  obtain ⟨params, hparams, h⟩ := Outcome.bind_ok.mp h
  obtain ⟨returns, hreturns, h⟩ := Outcome.bind_ok.mp h
  have hparams : ∀ p ∈ params, p.2.Within S := by
    intro p hp
    obtain ⟨param, _, hparam⟩ := (Outcome.mem_mapM hparams).mp hp
    obtain ⟨i, _, hparam⟩ := Outcome.bind_ok.mp hparam
    obtain ⟨type, htype, hparam⟩ := Outcome.bind_ok.mp hparam
    cases hparam
    exact hS.ownedType htype
  dsimp only at h
  split at h
  · cases h
    exact ⟨hparams, hS.returnType hreturns, List.forall_mem_nil _⟩
  · obtain ⟨body, hbody, h⟩ := Outcome.bind_ok.mp h
    obtain ⟨statements, hstatements, rfl⟩ := Outcome.map_ok.mp hbody
    cases h
    exact ⟨hparams, hS.returnType hreturns, hS.stmts hstatements⟩

theorem CoveredBy.methods (hS : imports.CoveredBy S) {placement : Placement}
    {ms : List Code.Method} {members : List Member}
    (h : imports.methods placement ms = .ok members) : ∀ member ∈ members, member.Within S := by
  intro member hm
  obtain ⟨m, _, hm⟩ := (Outcome.mem_mapM h).mp hm
  exact hS.method hm

theorem CoveredBy.constants (hS : imports.CoveredBy S) {cs : List Code.Constant}
    {members : List Member} (h : constants cs = .ok members) :
    ∀ member ∈ members, member.Within S := by
  intro member hm
  obtain ⟨c, _, hm⟩ := (Outcome.mem_mapM h).mp hm
  obtain ⟨i, _, hm⟩ := Outcome.bind_ok.mp hm
  cases hm
  exact hS.staticText

theorem simpleFunction_within {docs : List String} {isPublic : Bool} {name : Ident}
    {receiver : Receiver} {returns : Ty} {result : Expr} (hr : returns.Within S)
    (he : result.Within S) :
    (simpleFunction docs isPublic name receiver returns result).Within S := by
  refine ⟨List.forall_mem_nil _, hr, ?_⟩
  rintro s (_ | ⟨_, ⟨⟩⟩)
  exact he

/-! ### Items -/

theorem CoveredBy.derives (hS : imports.CoveredBy S) {names : List String}
    (hn : ∀ n ∈ names, n ∈ reservedNames) : ∀ n ∈ names, S (.plain n) :=
  fun n hmem => hS.reserved n (hn n hmem)

/-- An interface of the client library that an item implements. -/
theorem CoveredBy.implemented (hS : imports.CoveredBy S) (item : Code.RuntimeItem) :
    ∀ t, some (imports.runtimeType item []) = some t → t.Within S := by
  rintro _ ⟨⟩
  exact hS.runtimeType item trivial

theorem CoveredBy.customScalar (hS : imports.CoveredBy S) {m : Code.Model} {name : Ident}
    {items : List Item} (h : imports.customScalar m name = .ok items)
    (hdefined : ∀ item ∈ items, ∀ i ∈ item.defines, S i) : ∀ item ∈ items, item.Within S := by
  obtain ⟨marker, _, h⟩ := Outcome.bind_ok.mp h
  cases h
  have hmarker : S marker :=
    hdefined _ (List.mem_cons_self ..) marker (List.mem_singleton_self marker)
  simp only [List.forall_mem_cons]
  refine ⟨hS.derives (by decide), ⟨by simp, hS.implemented _, ⟨hmarker, trivial⟩, ?_⟩, ?_,
    List.forall_mem_nil _⟩
  · simp only [List.forall_mem_singleton]
    exact hS.staticText
  · exact hS.runtimeType _ ⟨⟨hmarker, trivial⟩, trivial⟩

theorem CoveredBy.ownSlice (hS : imports.CoveredBy S) : ownSlice.Within S := hS.self

theorem CoveredBy.enumerationMembers (hS : imports.CoveredBy S) {values : List Code.EnumValue}
    {members : List Member} (h : enumerationMembers values = .ok members) :
    ∀ member ∈ members, member.Within S := by
  obtain ⟨constants, hconstants, h⟩ := Outcome.bind_ok.mp h
  obtain ⟨accessors, haccessors, h⟩ := Outcome.bind_ok.mp h
  obtain ⟨all, hall, h⟩ := Outcome.bind_ok.mp h
  cases h
  have haccessors : ∀ member ∈ accessors, member.Within S := by
    intro member hm
    obtain ⟨v, _, hm⟩ := (Outcome.mem_mapM haccessors).mp hm
    obtain ⟨i, _, hm⟩ := Outcome.bind_ok.mp hm
    obtain ⟨variant, _, hm⟩ := Outcome.bind_ok.mp hm
    cases hm
    exact simpleFunction_within hS.self (hS.ownPath variant)
  have hall : Expr.AllWithin S all := by
    refine Expr.allWithin_iff.mpr fun e he => ?_
    obtain ⟨v, _, he⟩ := (Outcome.mem_mapM hall).mp he
    obtain ⟨variant, _, he⟩ := Outcome.bind_ok.mp he
    cases he
    exact hS.ownPath variant
  simp only [List.forall_mem_append, List.forall_mem_singleton]
  exact ⟨⟨hS.constants hconstants, haccessors⟩, simpleFunction_within hS.ownSlice hall⟩

theorem CoveredBy.enumeration (hS : imports.CoveredBy S) {m : Code.Model} {name : Ident}
    {values : List Code.EnumValue} {items : List Item}
    (h : imports.enumeration m name values = .ok items)
    (hdefined : ∀ item ∈ items, ∀ i ∈ item.defines, S i) : ∀ item ∈ items, item.Within S := by
  obtain ⟨variants, _, h⟩ := Outcome.bind_ok.mp h
  obtain ⟨members, hmembers, h⟩ := Outcome.bind_ok.mp h
  obtain ⟨toWire, htoWire, h⟩ := Outcome.bind_ok.mp h
  obtain ⟨fromWire, hfromWire, h⟩ := Outcome.bind_ok.mp h
  cases h
  have hname : S name := hdefined _ (List.mem_cons_self ..) name (List.mem_singleton_self name)
  have htoWire : Expr.ArmsWithin S toWire := by
    refine Expr.armsWithin_iff.mpr fun arm harm => ?_
    obtain ⟨v, _, harm⟩ := (Outcome.mem_mapM htoWire).mp harm
    obtain ⟨variant, _, harm⟩ := Outcome.bind_ok.mp harm
    obtain ⟨constant, _, harm⟩ := Outcome.bind_ok.mp harm
    cases harm
    exact ⟨hS.selfName, hS.ownPath constant⟩
  have hfromWire : ∀ arm ∈ fromWire, PathWithin S (arm.1.getD []) ∧ arm.2.Within S := by
    intro arm harm
    obtain ⟨v, _, harm⟩ := (Outcome.mem_mapM hfromWire).mp harm
    obtain ⟨constant, _, harm⟩ := Outcome.bind_ok.mp harm
    obtain ⟨variant, _, harm⟩ := Outcome.bind_ok.mp harm
    cases harm
    exact ⟨hS.selfName, trivial, hS.ownPath variant, trivial⟩
  have htext : (Ty.standard "str" []).Within S := hS.standard (Or.inr (by decide)) trivial
  simp only [List.forall_mem_cons]
  refine ⟨hS.derives (by decide), ⟨by simp, by simp, ⟨hname, trivial⟩,
    hS.enumerationMembers hmembers⟩, ⟨by simp, hS.implemented _, ⟨hname, trivial⟩, ?_⟩,
    ⟨by simp, hS.implemented _, ⟨hname, trivial⟩, ?_⟩, List.forall_mem_nil _⟩
  · simp only [List.forall_mem_cons]
    refine ⟨hS.staticText, simpleFunction_within hS.staticText ⟨trivial, htoWire⟩, ⟨?_, ?_, ?_⟩,
      simpleFunction_within hS.ownSlice ⟨hS.ownPath _, trivial⟩, List.forall_mem_nil _⟩
    · simp only [List.forall_mem_singleton]
      exact htext
    · exact hS.standard (Or.inl (by decide)) ⟨hS.self, trivial⟩
    · simp only [Option.getD_some, List.forall_mem_singleton]
      refine ⟨trivial, Expr.armsWithin_iff.mpr ?_⟩
      rw [List.forall_mem_append]
      refine ⟨hfromWire, ?_⟩
      simp only [List.forall_mem_singleton]
      exact ⟨trivial, trivial⟩
  · simp only [List.forall_mem_singleton]
    exact simpleFunction_within (hS.runtimeType _ trivial)
      ⟨hS.runtimePath _ _, ⟨⟨hS.runtimePath _ _, trivial, trivial⟩, trivial⟩, trivial⟩

theorem CoveredBy.inputObject (hS : imports.CoveredBy S) {m : Code.Model} {name : Ident}
    {cls : Code.Class} {items : List Item} (h : imports.inputObject m name cls = .ok items)
    (hdefined : ∀ item ∈ items, ∀ i ∈ item.defines, S i) : ∀ item ∈ items, item.Within S := by
  obtain ⟨constants, hconstants, h⟩ := Outcome.bind_ok.mp h
  obtain ⟨methods, hmethods, h⟩ := Outcome.bind_ok.mp h
  cases h
  have hname : S name := hdefined _ (List.mem_cons_self ..) name (List.mem_cons_self ..)
  simp only [List.forall_mem_cons]
  refine ⟨⟨hS.derives (by decide), by simp, ?_⟩, ⟨by simp, by simp, ⟨hname, trivial⟩, ?_⟩,
    ⟨by simp, hS.implemented _, ⟨hname, trivial⟩, ?_⟩, List.forall_mem_nil _⟩
  · simp only [List.forall_mem_singleton]
    exact hS.runtimeType _ trivial
  · exact List.forall_mem_append.mpr ⟨hS.constants hconstants, hS.methods hmethods⟩
  · simp only [List.forall_mem_singleton]
    exact simpleFunction_within (hS.runtimeType _ trivial)
      ⟨hS.runtimePath _ _, ⟨trivial, trivial⟩, trivial⟩

theorem CoveredBy.outputObject (hS : imports.CoveredBy S) {m : Code.Model} {name : Ident}
    {properties : List Code.Property} {ms : List Code.Method}
    {conformances : List Code.Conformance} {items : List Item}
    (h : imports.outputObject m name properties ms conformances = .ok items)
    (hdefined : ∀ item ∈ items, ∀ i ∈ item.defines, S i) : ∀ item ∈ items, item.Within S := by
  obtain ⟨fields, hfields, h⟩ := Outcome.bind_ok.mp h
  obtain ⟨inherent, hinherent, h⟩ := Outcome.bind_ok.mp h
  obtain ⟨implementations, himplementations, h⟩ := Outcome.bind_ok.mp h
  cases h
  have hname : S name := hdefined _ (List.mem_cons_self ..) name (List.mem_cons_self ..)
  have hfields : ∀ f ∈ fields, f.type.Within S := by
    intro f hf
    obtain ⟨p, _, hf⟩ := (Outcome.mem_mapM hfields).mp hf
    obtain ⟨i, _, hf⟩ := Outcome.bind_ok.mp hf
    obtain ⟨type, htype, hf⟩ := Outcome.bind_ok.mp hf
    cases hf
    exact hS.ownedType htype
  have himplementations : ∀ item ∈ implementations, item.Within S := by
    intro item hitem
    obtain ⟨c, _, hitem⟩ := (Outcome.mem_mapM himplementations).mp hitem
    obtain ⟨interface, hinterface, hitem⟩ := Outcome.bind_ok.mp hitem
    obtain ⟨methods, hmethods, hitem⟩ := Outcome.bind_ok.mp hitem
    cases hitem
    refine ⟨by simp, ?_, ⟨hname, trivial⟩, hS.methods hmethods⟩
    rintro _ ⟨⟩
    exact hS.typeAt _ _ hinterface
  rw [List.forall_mem_append]
  refine ⟨?_, himplementations⟩
  simp only [List.forall_mem_cons]
  refine ⟨⟨hS.derives (by decide), by simp, hfields⟩,
    ⟨by simp, by simp, ⟨hname, trivial⟩, hS.methods hinherent⟩,
    ⟨by simp, hS.implemented _, ⟨hname, trivial⟩, ?_⟩, List.forall_mem_nil _⟩
  · simp only [List.forall_mem_cons]
    refine ⟨hS.staticText, ⟨?_, hS.fallible hS.self, ?_⟩, List.forall_mem_nil _⟩
    · simp only [List.forall_mem_singleton]
      exact hS.responseMap
    · simp only [Option.getD_some, List.forall_mem_singleton]
      exact ⟨hS.ownPath _, trivial, trivial⟩

theorem CoveredBy.interface (hS : imports.CoveredBy S) {m : Code.Model} {name : Ident}
    {accessors : List Code.Method} {items : List Item}
    (h : imports.interface m name accessors = .ok items) : ∀ item ∈ items, item.Within S := by
  obtain ⟨methods, hmethods, h⟩ := Outcome.bind_ok.mp h
  cases h
  rw [List.forall_mem_singleton]
  exact hS.methods hmethods

theorem CoveredBy.fieldSelection (hS : imports.CoveredBy S) {m : Code.Model} {name : Ident}
    {cls : Code.Class} {items : List Item} (h : imports.fieldSelection m name cls = .ok items)
    (hdefined : ∀ item ∈ items, ∀ i ∈ item.defines, S i) : ∀ item ∈ items, item.Within S := by
  obtain ⟨constants, hconstants, h⟩ := Outcome.bind_ok.mp h
  obtain ⟨methods, hmethods, h⟩ := Outcome.bind_ok.mp h
  cases h
  have hname : S name := hdefined _ (List.mem_cons_self ..) name (List.mem_cons_self ..)
  have hselection : (imports.runtimeType .fieldSelection []).Within S := hS.runtimeType _ trivial
  simp only [List.forall_mem_cons]
  refine ⟨⟨hS.derives (by decide), by simp, ?_⟩, ⟨by simp, by simp, ⟨hname, trivial⟩, ?_⟩,
    List.forall_mem_nil _⟩
  · simp only [List.forall_mem_singleton]
    exact hselection
  · simp only [List.forall_mem_append, List.forall_mem_singleton]
    exact ⟨⟨⟨hS.constants hconstants, simpleFunction_within hS.self ⟨hS.ownPath _, trivial⟩⟩,
      hS.methods hmethods⟩, simpleFunction_within hselection trivial⟩

theorem CoveredBy.service (hS : imports.CoveredBy S) {m : Code.Model} {name : Ident}
    {cls : Code.Class} {items : List Item} (h : imports.service m name cls = .ok items)
    (hdefined : ∀ item ∈ items, ∀ i ∈ item.defines, S i) : ∀ item ∈ items, item.Within S := by
  obtain ⟨methods, hmethods, h⟩ := Outcome.bind_ok.mp h
  cases h
  have hname : S name := hdefined _ (List.mem_cons_self ..) name (List.mem_cons_self ..)
  have hparam : (Ty.named transportParam).Within S :=
    ⟨hdefined _ (List.mem_cons_self ..) _ (List.mem_cons_of_mem _ (List.mem_cons_self ..)), trivial⟩
  simp only [List.forall_mem_cons]
  refine ⟨⟨hS.derives (by decide), ?_, ?_⟩, ⟨?_, by simp, ⟨hname, hparam, trivial⟩, ?_⟩,
    List.forall_mem_nil _⟩
  · rintro _ ⟨⟩ _ ⟨⟩
  · simp only [List.forall_mem_singleton]
    exact hparam
  · rintro _ ⟨⟩ _ ⟨⟩
    exact hS.runtimeType _ trivial
  · rw [List.forall_mem_cons]
    refine ⟨⟨?_, hS.self, ?_⟩, hS.methods hmethods⟩
    · simp only [List.forall_mem_singleton]
      exact hparam
    · simp only [Option.getD_some, List.forall_mem_singleton]
      exact ⟨hS.selfName, trivial⟩

/-- The items of a file rely on names that its table of imports covers and on those that they define
themselves. -/
theorem CoveredBy.declarations (hS : imports.CoveredBy S) {m : Code.Model} {items : List Item}
    (h : imports.declarations m = .ok items)
    (hdefined : ∀ item ∈ items, ∀ i ∈ item.defines, S i) : ∀ item ∈ items, item.Within S := by
  obtain ⟨name, _, h⟩ := Outcome.bind_ok.mp h
  split at h
  · exact hS.customScalar h hdefined
  · exact hS.enumeration h hdefined
  · exact hS.inputObject h hdefined
  · exact hS.outputObject h hdefined
  · exact hS.interface h
  · exact hS.fieldSelection h hdefined
  · exact hS.service h hdefined

end Syntax

end Imports

end Graphwright.Rust
