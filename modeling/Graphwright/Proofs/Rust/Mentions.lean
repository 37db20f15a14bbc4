import Graphwright.Proofs.Outcome
import Graphwright.Rust.Rendering

/-!
# Names that stand in a file

Besides paths and types a file consists of names that its items, their members and the bodies of
functions mention. Main statement: whatever is mentioned is a name that has been escaped, one of the
few that are taken as they are, or a method that all items of a kind call.
-/
namespace Graphwright

namespace Code

/-- A name in a method that is more than something to be escaped. -/
inductive Use
  /-- A method that is called. -/
  | method (name : String)
  /-- A name that is spelled as it is. -/
  | asIs (name : String)
  deriving DecidableEq

mutual
@[simp] def Expr.uses : Expr → List Use
  | .toInput value => .method "to_input_value" :: value.uses
  | .send sent => .method "send" :: sent.uses
  | .methodCall receiver method args => .method method :: (receiver.uses ++ Expr.usesInList args)
  | .constant name => [.asIs name]
  | .field base _ => base.uses
  | .arguments entries => Expr.usesInEntries entries
  | .associatedCall _ args => Expr.usesInList args
  | .construct fields => Expr.usesInFields fields
  | .request _ _ args _ => args.uses
  | .attempt value => value.uses
  | .borrow value => value.uses
  | .decode source _ _ _ => source.uses
  | .success value => value.uses
  | .var _ => []
  | .self => []
  | .str _ => []
  | .unset => []
  | .readHydrated _ _ _ => []
  | .delegate _ _ => []

@[simp] def Expr.usesInList : List Expr → List Use
  | [] => []
  | e :: es => e.uses ++ Expr.usesInList es

@[simp] def Expr.usesInEntries : List (Expr × Expr) → List Use
  | [] => []
  | (key, value) :: entries => key.uses ++ value.uses ++ Expr.usesInEntries entries

@[simp] def Expr.usesInFields : List (String × Expr) → List Use
  | [] => []
  | (_, value) :: fields => value.uses ++ Expr.usesInFields fields
end

@[simp] def Stmt.uses : Stmt → List Use
  | bind _ _ value => value.uses
  | assign target value => target.uses ++ value.uses
  | insert map key value => map.uses ++ key.uses ++ value.uses
  | insertIfPresent map key _ => map.uses ++ key.uses ++ [.method "to_input_value"]
  | returnSelfIfAbsent _ => []
  | select selection field arguments _ => selection.uses ++ field.uses ++ arguments.uses
  | «return» value => value.uses

def Method.uses (m : Method) : List Use := m.body.flatMap (·.uses)

def Class.uses (cls : Class) : List Use :=
  cls.constants.map (.asIs ·.name) ++ cls.methods.flatMap (·.uses)

def Model.uses (m : Model) : List Use :=
  match m.artifact with
  | .customScalar => [.asIs (Rust.Imports.markerName m)]
  | .enumeration values => values.flatMap fun v => [.asIs v.constant, .asIs v.variant]
  | .inputObject cls => cls.uses
  | .outputObject _ methods conformances =>
    methods.flatMap (·.uses) ++ conformances.flatMap fun c => c.methods.flatMap (·.uses)
  | .interface accessors => accessors.flatMap (·.uses)
  | .fieldSelection cls => cls.uses
  | .service cls => cls.uses

end Code

namespace Rust

open Code (Use)

inductive Mention
  /-- A method that is called. -/
  | method (name : Ident)
  | name (name : Ident)
  deriving DecidableEq

/-! ## Names in syntax -/

/-- A path mentions a name if it is one, or a member of the type at hand. -/
def pathMentions : List Ident → List Mention
  | [i] => if i = .plain "self" then [] else [.name i]
  | [head, i] => if head = .plain "Self" then [.name i] else []
  | _ => []

namespace Expr

mutual

@[simp] def mentions : Expr → List Mention
  | path segments => pathMentions segments
  | .function segments _ => pathMentions segments
  | str _ => []
  | call f args => f.mentions ++ mentionsInList args
  | methodCall receiver method args => .method method :: (receiver.mentions ++ mentionsInList args)
  | field base name => .name name :: base.mentions
  | borrow value => value.mentions
  | dereference value => value.mentions
  | attempt value => value.mentions
  | paren value => value.mentions
  | array elems => mentionsInList elems
  | tuple elems => mentionsInList elems
  | construct fields => mentionsInFields fields
  | closure param _ body => .name param :: body.mentions
  | select subject arms => subject.mentions ++ mentionsInArms arms

@[simp] def mentionsInList : List Expr → List Mention
  | [] => []
  | e :: es => e.mentions ++ mentionsInList es

@[simp] def mentionsInFields : List (Ident × Option Expr) → List Mention
  | [] => []
  | (name, Option.some e) :: fs => .name name :: (e.mentions ++ mentionsInFields fs)
  | (name, none) :: fs => .name name :: mentionsInFields fs

@[simp] def mentionsInArms : List (Option (List Ident) × Expr) → List Mention
  | [] => []
  | (pattern, e) :: arms => pathMentions (pattern.getD []) ++ (e.mentions ++ mentionsInArms arms)

end

theorem mentionsInList_eq (es : List Expr) : mentionsInList es = es.flatMap mentions := by
  induction es with
  | nil => rfl
  | cons e es ih => rw [mentionsInList, ih, List.flatMap_cons]

theorem mentionsInArms_eq (arms : List (Option (List Ident) × Expr)) : mentionsInArms arms =
    arms.flatMap fun arm => pathMentions (arm.1.getD []) ++ arm.2.mentions := by
  induction arms with
  | nil => rfl
  | cons arm arms ih =>
      obtain ⟨pattern, e⟩ := arm
      rw [mentionsInArms, ih, List.flatMap_cons, List.append_assoc]

end Expr

@[simp] def Stmt.mentions : Stmt → List Mention
  | bind name _ value => .name name :: value.mentions
  | bindOrReturnSelf name => [.name name]
  | ifPresent name body => .name name :: body.mentions
  | assign target value => target.mentions ++ value.mentions
  | perform value => value.mentions
  | .return value => value.mentions
  | result value => value.mentions

def Function.mentions (f : Function) : List Mention :=
  .name f.name :: (f.params.map (.name ·.1) ++ (f.body.getD []).flatMap (·.mentions))

def Member.mentions : Member → List Mention
  | constant _ name _ => [.name name]
  | function f => f.mentions

def Item.mentions : Item → List Mention
  | use _ _ names => names.map .name
  | module _ name => [.name name]
  | enumeration _ _ name variants => .name name :: variants.map (.name ·.name)
  | record _ _ name param fields =>
    .name name :: ((param.map (.name ·.name)).toList ++ fields.map (.name ·.name))
  | trait _ name members => .name name :: members.flatMap (·.mentions)
  | implementation param _ _ members =>
    (param.map (.name ·.name)).toList ++ members.flatMap (·.mentions)
  | typeAlias _ name _ => [.name name]

/-! ## Accounts -/

/-- Methods that generated code calls whatever it is generated for. -/
def ownMethods : List String :=
  ["map", "get", "insert", "select", "into_selection", "clone", "to_string"]

/-- Names that generated code has whatever it is generated for. -/
def ownNames : List String :=
  ["value", "None", "Some", "Ok", "boxed", "options", "NAME", "TYPE_NAME", "as_str", "from_wire",
    "to_input_value", "data", "fields", "from_map", "new", "default", "into_selection", "selection",
    "transport", "T"]

/-- Where a name comes from that stands in spelled code. -/
inductive Accounted (uses : List Use) : Mention → Prop
  | method {n i} (hn : .method n ∈ uses) (h : Ident.escaped n = .ok i) : Accounted uses (.method i)
  | own {n} (hn : n ∈ ownMethods) : Accounted uses (.method (.plain n))
  | escaped {n i} (h : Ident.escaped n = .ok i) : Accounted uses (.name i)
  | asIs {n i} (hn : .asIs n ∈ uses) (h : Ident.ofName n = .ok i) : Accounted uses (.name i)

/-- All these names come from somewhere. -/
def AccountsFor (uses : List Use) (mentions : List Mention) : Prop :=
  ∀ m ∈ mentions, Accounted uses m

theorem escaped_of_mem_ownNames : ∀ n ∈ ownNames, Ident.escaped n = .ok (.plain n) := by
  decide +kernel

namespace AccountsFor

variable {uses uses' : List Use} {ms ms' : List Mention} {n : String} {i : Ident}

theorem nil : AccountsFor uses [] := List.forall_mem_nil _

theorem mono (h : AccountsFor uses ms) (hsub : uses ⊆ uses') : AccountsFor uses' ms := by
  intro m hm
  cases h m hm with
  | method hn h => exact .method (hsub hn) h
  | own hn => exact .own hn
  | escaped h => exact .escaped h
  | asIs hn h => exact .asIs (hsub hn) h

theorem append (h : AccountsFor uses ms) (h' : AccountsFor uses' ms') :
    AccountsFor (uses ++ uses') (ms ++ ms') :=
  List.forall_mem_append.mpr
    ⟨h.mono (List.subset_append_left ..), h'.mono (List.subset_append_right ..)⟩

/-- Two parts of the same code. -/
theorem both (h : AccountsFor uses ms) (h' : AccountsFor uses ms') : AccountsFor uses (ms ++ ms') :=
  List.forall_mem_append.mpr ⟨h, h'⟩

theorem method (hn : Ident.escaped n = .ok i) (h : AccountsFor uses ms) :
    AccountsFor (.method n :: uses) (.method i :: ms) :=
  List.forall_mem_cons.mpr ⟨.method List.mem_cons_self hn, h.mono (List.subset_cons_self ..)⟩

theorem ownMethod (hn : n ∈ ownMethods) (h : AccountsFor uses ms) :
    AccountsFor uses (.method (.plain n) :: ms) :=
  List.forall_mem_cons.mpr ⟨.own hn, h⟩

theorem name (hn : Ident.escaped n = .ok i) (h : AccountsFor uses ms) :
    AccountsFor uses (.name i :: ms) :=
  List.forall_mem_cons.mpr ⟨.escaped hn, h⟩

theorem ownName (hn : n ∈ ownNames) (h : AccountsFor uses ms) :
    AccountsFor uses (.name (.plain n) :: ms) :=
  h.name (escaped_of_mem_ownNames n hn)

theorem asIs (hn : .asIs n ∈ uses) (hi : Ident.ofName n = .ok i) (h : AccountsFor uses ms) :
    AccountsFor uses (.name i :: ms) :=
  List.forall_mem_cons.mpr ⟨.asIs hn hi, h⟩

theorem flatMap {α β : Type} {xs : List α} {ys : List β} {f : α → List Use} {g : β → List Mention}
    (h : ∀ y ∈ ys, ∃ x ∈ xs, AccountsFor (f x) (g y)) :
    AccountsFor (xs.flatMap f) (ys.flatMap g) := by
  refine List.forall_mem_flatMap.mpr fun y hy => ?_
  obtain ⟨x, hx, h⟩ := h y hy
  exact h.mono fun u hu => List.mem_flatMap.mpr ⟨x, hx, hu⟩

/-- The results of one function, all of which succeeded. -/
theorem ofMapM {α β : Type} {xs : List α} {ys : List β} {f : α → Except Failure β}
    {g : β → List Mention} (h : xs.mapM f = .ok ys)
    (hone : ∀ x ∈ xs, ∀ y, f x = .ok y → AccountsFor uses (g y)) :
    AccountsFor uses (ys.flatMap g) := by
  refine List.forall_mem_flatMap.mpr fun y hy => ?_
  obtain ⟨x, hx, hxy⟩ := (Outcome.mem_mapM h).mp hy
  exact hone x hx y hxy

end AccountsFor

/-! ## Bodies -/

namespace Imports

variable (imports : Imports)

/-- A path below an item of the client library mentions nothing. -/
theorem pathMentions_runtimePath (item : Code.RuntimeItem) (i : Ident) :
    pathMentions (imports.runtimePath item ++ [i]) = [] := by
  unfold runtimePath
  split
  · cases item <;> rfl
  · rfl

/-- A call of a function of the client library. -/
theorem accounts_runtimeCall {uses : List Use} {item : Code.RuntimeItem} {i : Ident}
    {args : List Expr} (h : AccountsFor uses (Expr.mentionsInList args)) :
    AccountsFor uses (Expr.call (.path (imports.runtimePath item ++ [i])) args).mentions := by
  rw [Expr.mentions, Expr.mentions, imports.pathMentions_runtimePath]
  exact h

theorem accounts_decoder {uses : List Use} {d : Code.Decoder} {e : Expr}
    (h : imports.decoder d = .ok e) : AccountsFor uses e.mentions := by
  have hpath : ∀ function, pathMentions (imports.decodePath function) = [] :=
    fun function => imports.pathMentions_runtimePath .decode (.plain function)
  have hvalue : ∀ {ms}, AccountsFor uses ms → AccountsFor uses (.name (.plain "value") :: ms) :=
    .ownName (by decide)
  induction d generalizing e with
  | scalar p =>
      cases h
      rw [Expr.mentions, hpath]
      exact .nil
  | enumeration path | object path | customScalar path =>
      obtain ⟨_, _, h⟩ := Outcome.bind_ok.mp h
      cases h
      rw [Expr.mentions, hpath]
      exact .nil
  | list element ih | nullable element ih =>
      obtain ⟨function, hfunction, h⟩ := Outcome.bind_ok.mp h
      cases h
      simp only [valueClosure, Expr.mentions, hpath, Expr.mentionsInList, Expr.word, Expr.name,
        List.append_nil, List.nil_append]
      exact hvalue (hvalue (ih hfunction))
  | boxed inner ih =>
      obtain ⟨function, hfunction, h⟩ := Outcome.bind_ok.mp h
      cases h
      refine hvalue (.ownMethod (by decide) ?_)
      refine AccountsFor.both (AccountsFor.both (?_ : AccountsFor uses (Expr.mentions _))
        (hvalue .nil)) .nil
      split <;> simpa using ih hfunction

/-- A variable, or the receiver. -/
theorem accounts_name {uses : List Use} {n : String} {i : Ident} (h : Ident.escaped n = .ok i) :
    AccountsFor uses (Expr.name i).mentions := by
  rw [Expr.name, Expr.mentions, pathMentions]
  split
  · exact .nil
  · exact .name h .nil

theorem accounts_nestedSelection {uses : List Use} {selection : Option String} {e : Expr}
    (h : nestedSelection selection = .ok e) : AccountsFor uses e.mentions := by
  cases selection with
  | none =>
      cases h
      exact .ownName (by decide) .nil
  | some param =>
      obtain ⟨i, hi, h⟩ := Outcome.bind_ok.mp h
      cases h
      have hcall : AccountsFor uses (.method (.plain "into_selection") :: (Expr.name i).mentions) :=
        .ownMethod (by decide) (accounts_name hi)
      have hsome : AccountsFor uses (Expr.word "Some").mentions := .ownName (by decide) .nil
      exact hsome.both ((hcall.both .nil).both .nil)

theorem accounts_borrowedView {uses : List Use} {t : Code.TypeExpr} {view : Ty × Option Expr}
    (h : imports.borrowedView t = .ok view) :
    ∀ e, view.2 = some e → AccountsFor uses e.mentions := by
  unfold borrowedView at h
  split at h
  case h_1 | h_3 =>
    cases h
    rintro _ ⟨⟩
    exact .nil
  all_goals
    obtain ⟨_, _, h⟩ := Outcome.bind_ok.mp h
    cases h
    rintro _ ⟨⟩
  case h_7 =>
    exact .ownName (by decide) (.ownName (by decide) .nil)
  all_goals exact .nil

mutual

theorem accounts_expr : (e : Code.Expr) → {spelled : Expr} → imports.expr e = .ok spelled →
    AccountsFor e.uses spelled.mentions
  | .var name, _, h => by
      obtain ⟨i, hi, h⟩ := Outcome.bind_ok.mp h
      cases h
      exact accounts_name hi
  | .self, _, h => by
      cases h
      exact .nil
  | .field base name, _, h => by
      obtain ⟨base', hbase, h⟩ := Outcome.bind_ok.mp h
      obtain ⟨i, hi, h⟩ := Outcome.bind_ok.mp h
      cases h
      exact .name hi (accounts_expr base hbase)
  | .constant name, _, h => by
      obtain ⟨i, hi, h⟩ := Outcome.bind_ok.mp h
      cases h
      exact .asIs List.mem_cons_self hi .nil
  | .str _, _, h => by
      cases h
      exact .nil
  | .arguments entries, _, h => by
      rw [expr] at h
      split at h
      · cases h
        exact imports.accounts_runtimeCall .nil
      · obtain ⟨elems, helems, h⟩ := Outcome.bind_ok.mp h
        cases h
        exact imports.accounts_runtimeCall ((accounts_entries entries helems).both .nil)
  | .toInput value, _, h => by
      obtain ⟨value', hvalue, h⟩ := Outcome.bind_ok.mp h
      cases h
      have hcalled := (accounts_expr value hvalue).both .nil
      exact .method (escaped_of_mem_ownNames _ (by decide)) hcalled
  | .methodCall receiver method args, _, h => by
      obtain ⟨receiver', hreceiver, h⟩ := Outcome.bind_ok.mp h
      obtain ⟨i, hi, h⟩ := Outcome.bind_ok.mp h
      obtain ⟨args', hargs, h⟩ := Outcome.bind_ok.mp h
      cases h
      exact .method hi ((accounts_expr receiver hreceiver).append (accounts_exprs args hargs))
  | .associatedCall function args, _, h => by
      obtain ⟨i, hi, h⟩ := Outcome.bind_ok.mp h
      obtain ⟨args', hargs, h⟩ := Outcome.bind_ok.mp h
      cases h
      exact .name hi (accounts_exprs args hargs)
  | .construct fields, _, h => by
      obtain ⟨fields', hfields, h⟩ := Outcome.bind_ok.mp h
      cases h
      exact accounts_fields fields hfields
  | .unset, _, h => by
      cases h
      rw [Expr.mentions, imports.pathMentions_runtimePath]
      exact .nil
  | .request kind action args selection, _, h => by
      obtain ⟨args', hargs, h⟩ := Outcome.bind_ok.mp h
      obtain ⟨selection', hselection, h⟩ := Outcome.bind_ok.mp h
      cases h
      exact imports.accounts_runtimeCall
        ((accounts_expr args hargs).both ((accounts_nestedSelection hselection).both .nil))
  | .send sent, _, h => by
      obtain ⟨sent', hsent, h⟩ := Outcome.bind_ok.mp h
      cases h
      have hstore : AccountsFor (.method "send" :: sent.uses)
          (Expr.field .self (.plain Code.transportStore)).mentions := .ownName (by decide) .nil
      have hargs := (accounts_expr sent hsent).both .nil
      exact List.forall_mem_cons.mpr ⟨.method List.mem_cons_self (by decide +kernel),
        hstore.both (hargs.mono (List.subset_cons_self ..))⟩
  | .attempt value, _, h => by
      obtain ⟨value', hvalue, h⟩ := Outcome.bind_ok.mp h
      have hvalue := accounts_expr value hvalue
      cases h
      exact hvalue
  | .borrow value, _, h => by
      obtain ⟨value', hvalue, h⟩ := Outcome.bind_ok.mp h
      have hvalue := accounts_expr value hvalue
      cases h
      exact hvalue
  | .decode source key decoder presence, _, h => by
      obtain ⟨source', hsource, h⟩ := Outcome.bind_ok.mp h
      obtain ⟨decoder', hdecoder, h⟩ := Outcome.bind_ok.mp h
      cases h
      exact imports.accounts_runtimeCall ((accounts_expr source hsource).both
        (AccountsFor.both .nil ((imports.accounts_decoder hdecoder).both .nil)))
  | .readHydrated property wireName type, _, h => by
      obtain ⟨i, hi, h⟩ := Outcome.bind_ok.mp h
      obtain ⟨⟨_, adapter⟩, hview, h⟩ := Outcome.bind_ok.mp h
      have hslot : AccountsFor [] (Expr.methodCall (.field .self i) (.plain "get")
          [.str wireName]).mentions := .ownMethod (by decide) (.name hi .nil)
      cases h
      cases adapter with
      | none => exact hslot
      | some function =>
          have hfunction : AccountsFor [] function.mentions :=
            imports.accounts_borrowedView hview function rfl
          exact .ownMethod (by decide) (hslot.both (hfunction.both .nil))
  | .delegate getter widened, _, h => by
      obtain ⟨i, hi, h⟩ := Outcome.bind_ok.mp h
      have hcall : AccountsFor [] (Expr.call (.ownPath i) [.self]).mentions := .name hi .nil
      cases h
      cases widened with
      | false => exact hcall
      | true =>
          have hsome : AccountsFor [] (Expr.word "Some").mentions := .ownName (by decide) .nil
          exact .ownMethod (by decide) (hcall.both (hsome.both .nil))
  | .success value, _, h => by
      obtain ⟨value', hvalue, h⟩ := Outcome.bind_ok.mp h
      cases h
      have hok : AccountsFor value.uses (Expr.word "Ok").mentions := .ownName (by decide) .nil
      exact hok.both ((accounts_expr value hvalue).both .nil)

theorem accounts_exprs : (es : List Code.Expr) → {spelled : List Expr} →
    imports.exprs es = .ok spelled →
      AccountsFor (Code.Expr.usesInList es) (Expr.mentionsInList spelled)
  | [], _, h => by
      cases h
      exact .nil
  | e :: es, _, h => by
      obtain ⟨first, hfirst, h⟩ := Outcome.bind_ok.mp h
      obtain ⟨rest, hrest, h⟩ := Outcome.bind_ok.mp h
      cases h
      exact (accounts_expr e hfirst).append (accounts_exprs es hrest)

theorem accounts_entries : (entries : List (Code.Expr × Code.Expr)) → {spelled : List Expr} →
    imports.entries entries = .ok spelled →
      AccountsFor (Code.Expr.usesInEntries entries) (Expr.mentionsInList spelled)
  | [], _, h => by
      cases h
      exact .nil
  | (key, value) :: entries, _, h => by
      obtain ⟨key', hkey, h⟩ := Outcome.bind_ok.mp h
      obtain ⟨value', hvalue, h⟩ := Outcome.bind_ok.mp h
      obtain ⟨rest, hrest, h⟩ := Outcome.bind_ok.mp h
      cases h
      have hpair := (accounts_expr key hkey).append ((accounts_expr value hvalue).both .nil)
      exact hpair.append (accounts_entries entries hrest)

theorem accounts_fields : (fields : List (String × Code.Expr)) →
    {spelled : List (Ident × Option Expr)} → imports.fields fields = .ok spelled →
      AccountsFor (Code.Expr.usesInFields fields) (Expr.mentionsInFields spelled)
  | [], _, h => by
      cases h
      exact .nil
  | (name, value) :: fields, _, h => by
      obtain ⟨i, hi, h⟩ := Outcome.bind_ok.mp h
      obtain ⟨value', hvalue, h⟩ := Outcome.bind_ok.mp h
      obtain ⟨rest, hrest, h⟩ := Outcome.bind_ok.mp h
      cases h
      exact .name hi ((accounts_expr value hvalue).append (accounts_fields fields hrest))

end

theorem accounts_stmt {isLast : Bool} {s : Code.Stmt} {spelled : Stmt}
    (h : imports.stmt isLast s = .ok spelled) : AccountsFor s.uses spelled.mentions := by
  cases s with
  | bind name isMutable value =>
      obtain ⟨i, hi, h⟩ := Outcome.bind_ok.mp h
      obtain ⟨value', hvalue, h⟩ := Outcome.bind_ok.mp h
      cases h
      exact .name hi (imports.accounts_expr value hvalue)
  | assign target value =>
      obtain ⟨target', htarget, h⟩ := Outcome.bind_ok.mp h
      obtain ⟨value', hvalue, h⟩ := Outcome.bind_ok.mp h
      cases h
      exact (imports.accounts_expr target htarget).append (imports.accounts_expr value hvalue)
  | insert map key value =>
      obtain ⟨map', hmap, h⟩ := Outcome.bind_ok.mp h
      obtain ⟨key', hkey, h⟩ := Outcome.bind_ok.mp h
      obtain ⟨value', hvalue, h⟩ := Outcome.bind_ok.mp h
      cases h
      have hargs := (imports.accounts_expr key hkey).append
        ((imports.accounts_expr value hvalue).both .nil)
      refine .ownMethod (by decide) ?_
      rw [Code.Stmt.uses, List.append_assoc]
      exact (imports.accounts_expr map hmap).append hargs
  | insertIfPresent map key param =>
      obtain ⟨map', hmap, h⟩ := Outcome.bind_ok.mp h
      obtain ⟨key', hkey, h⟩ := Outcome.bind_ok.mp h
      obtain ⟨i, hi, h⟩ := Outcome.bind_ok.mp h
      cases h
      have hconverted : AccountsFor [.method "to_input_value"]
          (Expr.methodCall (.name i) (.plain "to_input_value") []).mentions :=
        .method (escaped_of_mem_ownNames _ (by decide)) ((accounts_name hi).both .nil)
      have hargs := (imports.accounts_expr key hkey).append (hconverted.both .nil)
      refine .name hi (.ownMethod (by decide) ?_)
      rw [Code.Stmt.uses, List.append_assoc]
      exact (imports.accounts_expr map hmap).append hargs
  | returnSelfIfAbsent param =>
      obtain ⟨i, hi, h⟩ := Outcome.bind_ok.mp h
      cases h
      exact .name hi .nil
  | select selection field arguments nested =>
      obtain ⟨selection', hselection, h⟩ := Outcome.bind_ok.mp h
      obtain ⟨field', hfield, h⟩ := Outcome.bind_ok.mp h
      obtain ⟨arguments', harguments, h⟩ := Outcome.bind_ok.mp h
      obtain ⟨nested', hnested, h⟩ := Outcome.bind_ok.mp h
      cases h
      have hargs := (imports.accounts_expr field hfield).append
        ((imports.accounts_expr arguments harguments).both
          ((accounts_nestedSelection hnested).both .nil))
      refine .ownMethod (by decide) ?_
      rw [Code.Stmt.uses, List.append_assoc]
      exact (imports.accounts_expr selection hselection).append hargs
  | «return» value =>
      obtain ⟨value', hvalue, h⟩ := Outcome.bind_ok.mp h
      have hvalue := imports.accounts_expr value hvalue
      cases h
      split <;> exact hvalue

theorem accounts_stmts {body : List Code.Stmt} {spelled : List Stmt}
    (h : imports.stmts body = .ok spelled) :
    AccountsFor (body.flatMap (·.uses)) (spelled.flatMap (·.mentions)) := by
  induction body generalizing spelled with
  | nil =>
      cases h
      exact .nil
  | cons s body ih =>
      obtain ⟨first, hfirst, h⟩ := Outcome.bind_ok.mp h
      obtain ⟨rest, hrest, h⟩ := Outcome.bind_ok.mp h
      cases h
      exact (imports.accounts_stmt hfirst).append (ih hrest)

theorem accounts_method {placement : Placement} {m : Code.Method} {member : Member}
    (h : imports.method placement m = .ok member) : AccountsFor m.uses member.mentions := by
  obtain ⟨name, hname, h⟩ := Outcome.bind_ok.mp h
  obtain ⟨params, hparams, h⟩ := Outcome.bind_ok.mp h
  obtain ⟨returns, _, h⟩ := Outcome.bind_ok.mp h
  have hparams : AccountsFor m.uses (params.map (.name ·.1)) := by
    refine List.forall_mem_map.mpr fun p hp => ?_
    obtain ⟨param, _, hparam⟩ := (Outcome.mem_mapM hparams).mp hp
    obtain ⟨i, hi, hparam⟩ := Outcome.bind_ok.mp hparam
    obtain ⟨_, _, hparam⟩ := Outcome.bind_ok.mp hparam
    cases hparam
    exact .escaped hi
  dsimp only at h
  split at h
  · cases h
    exact .name hname (hparams.both .nil)
  · obtain ⟨body, hbody, h⟩ := Outcome.bind_ok.mp h
    obtain ⟨statements, hstatements, rfl⟩ := Outcome.map_ok.mp hbody
    cases h
    exact .name hname (hparams.both (imports.accounts_stmts hstatements))

theorem accounts_methods {placement : Placement} {ms : List Code.Method} {members : List Member}
    (h : imports.methods placement ms = .ok members) :
    AccountsFor (ms.flatMap (·.uses)) (members.flatMap (·.mentions)) := by
  refine .flatMap fun member hm => ?_
  obtain ⟨m, hmem, hm⟩ := (Outcome.mem_mapM h).mp hm
  exact ⟨m, hmem, imports.accounts_method hm⟩

theorem accounts_constants {cs : List Code.Constant} {members : List Member}
    (h : constants cs = .ok members) :
    AccountsFor (cs.map (.asIs ·.name)) (members.flatMap (·.mentions)) := by
  refine .ofMapM h fun c hc member hm => ?_
  obtain ⟨i, hi, hm⟩ := Outcome.bind_ok.mp hm
  cases hm
  exact AccountsFor.asIs (List.mem_map.mpr ⟨c, hc, rfl⟩) hi .nil

/-! ## Items -/

section

variable {imports} {m : Code.Model} {name : Ident} {items : List Item}

theorem accounts_customScalar (hname : Ident.escaped m.name = .ok name)
    (h : imports.customScalar m name = .ok items) :
    AccountsFor [.asIs (markerName m)] (items.flatMap (·.mentions)) := by
  obtain ⟨marker, hmarker, h⟩ := Outcome.bind_ok.mp h
  cases h
  exact .asIs List.mem_cons_self hmarker (.ownName (by decide) (.name hname .nil))

theorem accounts_simpleFunction {uses : List Use} {docs : List String} {isPublic : Bool} {i : Ident}
    {receiver : Receiver} {returns : Ty} {result : Expr} (hi : Accounted uses (.name i))
    (h : AccountsFor uses result.mentions) :
    AccountsFor uses (simpleFunction docs isPublic i receiver returns result).mentions :=
  List.forall_mem_cons.mpr ⟨hi, AccountsFor.both .nil (h.both .nil)⟩

theorem accounted_ownName {uses : List Use} {n : String} (h : n ∈ ownNames) :
    Accounted uses (.name (.plain n)) := .escaped (escaped_of_mem_ownNames n h)

section

variable {values : List Code.EnumValue}

/-- The names of an enum that are spelled as they are. -/
abbrev enumUses (values : List Code.EnumValue) : List Use :=
  values.flatMap fun v => [.asIs v.constant, .asIs v.variant]

theorem accounted_variant {v : Code.EnumValue} {i : Ident} (hv : v ∈ values)
    (h : Ident.ofName v.variant = .ok i) : Accounted (enumUses values) (.name i) :=
  .asIs (List.mem_flatMap.mpr ⟨v, hv, by simp⟩) h

theorem accounted_constant {v : Code.EnumValue} {i : Ident} (hv : v ∈ values)
    (h : Ident.ofName v.constant = .ok i) : Accounted (enumUses values) (.name i) :=
  .asIs (List.mem_flatMap.mpr ⟨v, hv, by simp⟩) h

theorem accounts_enumerationMembers {members : List Member}
    (h : enumerationMembers values = .ok members) :
    AccountsFor (enumUses values) (members.flatMap (·.mentions)) := by
  obtain ⟨constants, hconstants, h⟩ := Outcome.bind_ok.mp h
  obtain ⟨accessors, haccessors, h⟩ := Outcome.bind_ok.mp h
  obtain ⟨all, hall, h⟩ := Outcome.bind_ok.mp h
  cases h
  have hconstants : AccountsFor (enumUses values) (constants.flatMap (·.mentions)) := by
    refine (accounts_constants hconstants).mono fun u hu => ?_
    rw [List.map_map] at hu
    obtain ⟨v, hv, rfl⟩ := List.mem_map.mp hu
    exact List.mem_flatMap.mpr ⟨v, hv, List.mem_cons_self⟩
  have haccessors : AccountsFor (enumUses values) (accessors.flatMap (·.mentions)) := by
    refine .ofMapM haccessors fun v hv member hm => ?_
    obtain ⟨i, hi, hm⟩ := Outcome.bind_ok.mp hm
    obtain ⟨variant, hvariant, hm⟩ := Outcome.bind_ok.mp hm
    cases hm
    exact accounts_simpleFunction (.escaped hi)
      (List.forall_mem_singleton.mpr (accounted_variant hv hvariant))
  have hall : AccountsFor (enumUses values) (Expr.mentionsInList all) := by
    rw [Expr.mentionsInList_eq]
    refine .ofMapM hall fun v hv e he => ?_
    obtain ⟨variant, hvariant, he⟩ := Outcome.bind_ok.mp he
    cases he
    exact List.forall_mem_singleton.mpr (accounted_variant hv hvariant)
  rw [List.flatMap_append, List.flatMap_append]
  exact (hconstants.both haccessors).both
    ((accounts_simpleFunction (accounted_ownName (by decide)) hall).both .nil)

theorem accounts_enumeration (hname : Ident.escaped m.name = .ok name)
    (h : imports.enumeration m name values = .ok items) :
    AccountsFor (enumUses values) (items.flatMap (·.mentions)) := by
  obtain ⟨variants, hvariants, h⟩ := Outcome.bind_ok.mp h
  obtain ⟨members, hmembers, h⟩ := Outcome.bind_ok.mp h
  obtain ⟨toWire, htoWire, h⟩ := Outcome.bind_ok.mp h
  obtain ⟨fromWire, hfromWire, h⟩ := Outcome.bind_ok.mp h
  cases h
  have hvariants : AccountsFor (enumUses values) (variants.map (.name ·.name)) := by
    refine List.forall_mem_map.mpr fun variant hmem => ?_
    obtain ⟨v, hv, hmem⟩ := (Outcome.mem_mapM hvariants).mp hmem
    obtain ⟨i, hi, hmem⟩ := Outcome.bind_ok.mp hmem
    cases hmem
    exact accounted_variant hv hi
  have htoWire : AccountsFor (enumUses values) (Expr.mentionsInArms toWire) := by
    rw [Expr.mentionsInArms_eq]
    refine .ofMapM htoWire fun v hv arm harm => ?_
    obtain ⟨variant, hvariant, harm⟩ := Outcome.bind_ok.mp harm
    obtain ⟨constant, hconstant, harm⟩ := Outcome.bind_ok.mp harm
    cases harm
    exact List.forall_mem_cons.mpr ⟨accounted_variant hv hvariant,
      List.forall_mem_singleton.mpr (accounted_constant hv hconstant)⟩
  have hfromWire : AccountsFor (enumUses values)
      (Expr.mentionsInArms (fromWire ++ [(none, .word "None")])) := by
    rw [Expr.mentionsInArms_eq, List.flatMap_append]
    refine AccountsFor.both (.ofMapM hfromWire fun v hv arm harm => ?_)
      (.ownName (by decide) .nil)
    obtain ⟨constant, hconstant, harm⟩ := Outcome.bind_ok.mp harm
    obtain ⟨variant, hvariant, harm⟩ := Outcome.bind_ok.mp harm
    cases harm
    refine List.forall_mem_cons.mpr ⟨accounted_constant hv hconstant, ?_⟩
    exact List.forall_mem_cons.mpr ⟨accounted_ownName (by decide),
      List.forall_mem_singleton.mpr (accounted_variant hv hvariant)⟩
  have hvalue : ∀ {ms}, AccountsFor (enumUses values) ms →
      AccountsFor (enumUses values) (.name (.plain "value") :: ms) := .ownName (by decide)
  have hoptions : AccountsFor (enumUses values)
      (Expr.call (.ownPath (.plain "options")) []).mentions := .ownName (by decide) .nil
  have hwireText : AccountsFor (enumUses values) (Expr.methodCall
      (.call (.path (imports.runtimePath .graphQLEnum ++ [.plain "as_str"])) [.self])
      (.plain "to_string") []).mentions :=
    .ownMethod (by decide) ((imports.accounts_runtimeCall .nil).both .nil)
  refine List.forall_mem_flatMap.mpr ?_
  simp only [List.forall_mem_cons]
  refine ⟨List.forall_mem_cons.mpr ⟨.escaped hname, hvariants⟩,
    accounts_enumerationMembers hmembers, List.forall_mem_flatMap.mpr ?_,
    List.forall_mem_flatMap.mpr ?_, List.forall_mem_nil _⟩
  · simp only [List.forall_mem_cons]
    refine ⟨AccountsFor.ownName (by decide) .nil,
      accounts_simpleFunction (accounted_ownName (by decide)) htoWire,
      AccountsFor.ownName (by decide) (hvalue ((hvalue hfromWire).both .nil)),
      accounts_simpleFunction (accounted_ownName (by decide)) hoptions, List.forall_mem_nil _⟩
  · exact List.forall_mem_singleton.mpr
      (accounts_simpleFunction (accounted_ownName (by decide))
        (imports.accounts_runtimeCall (hwireText.both .nil)))

theorem accounts_class {cls : Code.Class} {constants methods : List Member}
    (hconstants : Imports.constants cls.constants = .ok constants)
    (hmethods : imports.methods .inherent cls.methods = .ok methods) :
    AccountsFor cls.uses ((constants ++ methods).flatMap (·.mentions)) := by
  rw [List.flatMap_append]
  exact (accounts_constants hconstants).append (imports.accounts_methods hmethods)

theorem accounts_inputObject {cls : Code.Class} (hname : Ident.escaped m.name = .ok name)
    (h : imports.inputObject m name cls = .ok items) :
    AccountsFor cls.uses (items.flatMap (·.mentions)) := by
  obtain ⟨constants, hconstants, h⟩ := Outcome.bind_ok.mp h
  obtain ⟨methods, hmethods, h⟩ := Outcome.bind_ok.mp h
  cases h
  have hdata : AccountsFor cls.uses (Expr.methodCall (.field .self (.plain Code.inputStore))
      (.plain "clone") []).mentions := .ownMethod (by decide) (.ownName (by decide) .nil)
  refine List.forall_mem_flatMap.mpr ?_
  simp only [List.forall_mem_cons]
  exact ⟨AccountsFor.name hname (.ownName (by decide) .nil), accounts_class hconstants hmethods,
    List.forall_mem_flatMap.mpr (List.forall_mem_singleton.mpr
      (accounts_simpleFunction (accounted_ownName (by decide))
        (imports.accounts_runtimeCall (hdata.both .nil)))), List.forall_mem_nil _⟩

theorem accounts_outputObject {properties : List Code.Property} {ms : List Code.Method}
    {conformances : List Code.Conformance} (hname : Ident.escaped m.name = .ok name)
    (h : imports.outputObject m name properties ms conformances = .ok items) :
    AccountsFor (ms.flatMap (·.uses) ++ conformances.flatMap fun c => c.methods.flatMap (·.uses))
      (items.flatMap (·.mentions)) := by
  obtain ⟨fields, hfields, h⟩ := Outcome.bind_ok.mp h
  obtain ⟨inherent, hinherent, h⟩ := Outcome.bind_ok.mp h
  obtain ⟨implementations, himplementations, h⟩ := Outcome.bind_ok.mp h
  cases h
  have hfields : ∀ {uses}, AccountsFor uses (fields.map (.name ·.name)) := by
    refine fun {uses} => List.forall_mem_map.mpr fun f hf => ?_
    obtain ⟨p, _, hf⟩ := (Outcome.mem_mapM hfields).mp hf
    obtain ⟨i, hi, hf⟩ := Outcome.bind_ok.mp hf
    obtain ⟨_, _, hf⟩ := Outcome.bind_ok.mp hf
    cases hf
    exact .escaped hi
  have himplementations : AccountsFor (conformances.flatMap fun c => c.methods.flatMap (·.uses))
      (implementations.flatMap (·.mentions)) := by
    refine .flatMap fun item hitem => ?_
    obtain ⟨c, hc, hitem⟩ := (Outcome.mem_mapM himplementations).mp hitem
    obtain ⟨_, _, hitem⟩ := Outcome.bind_ok.mp hitem
    obtain ⟨methods, hmethods, hitem⟩ := Outcome.bind_ok.mp hitem
    cases hitem
    exact ⟨c, hc, imports.accounts_methods hmethods⟩
  rw [List.flatMap_append]
  refine AccountsFor.append (List.forall_mem_flatMap.mpr ?_) himplementations
  simp only [List.forall_mem_cons]
  refine ⟨AccountsFor.name hname hfields, imports.accounts_methods hinherent,
    List.forall_mem_flatMap.mpr ?_, List.forall_mem_nil _⟩
  simp only [List.forall_mem_cons]
  exact ⟨AccountsFor.ownName (by decide) .nil, AccountsFor.ownName (by decide)
    (.ownName (by decide) (.ownName (by decide) (.ownName (by decide) .nil))),
    List.forall_mem_nil _⟩

theorem accounts_interface {accessors : List Code.Method} (hname : Ident.escaped m.name = .ok name)
    (h : imports.interface m name accessors = .ok items) :
    AccountsFor (accessors.flatMap (·.uses)) (items.flatMap (·.mentions)) := by
  obtain ⟨methods, hmethods, h⟩ := Outcome.bind_ok.mp h
  cases h
  exact .name hname ((imports.accounts_methods hmethods).both .nil)

theorem accounts_fieldSelection {cls : Code.Class} (hname : Ident.escaped m.name = .ok name)
    (h : imports.fieldSelection m name cls = .ok items) :
    AccountsFor cls.uses (items.flatMap (·.mentions)) := by
  obtain ⟨constants, hconstants, h⟩ := Outcome.bind_ok.mp h
  obtain ⟨methods, hmethods, h⟩ := Outcome.bind_ok.mp h
  cases h
  have hdefault : AccountsFor cls.uses (Expr.call (.ownPath (.plain "default")) []).mentions :=
    .ownName (by decide) .nil
  have hstore : AccountsFor cls.uses
      (Expr.field .self (.plain Code.selectionStore)).mentions := .ownName (by decide) .nil
  have hclass := accounts_class hconstants hmethods
  rw [List.flatMap_append] at hclass
  obtain ⟨hconstants, hmethods⟩ := List.forall_mem_append.mp hclass
  refine List.forall_mem_flatMap.mpr ?_
  simp only [List.forall_mem_cons]
  refine ⟨AccountsFor.name hname (.ownName (by decide) .nil), ?_, List.forall_mem_nil _⟩
  refine List.forall_mem_flatMap.mpr ?_
  simp only [List.forall_mem_append, List.forall_mem_singleton]
  exact ⟨⟨⟨List.forall_mem_flatMap.mp hconstants,
    accounts_simpleFunction (accounted_ownName (by decide)) hdefault⟩,
    List.forall_mem_flatMap.mp hmethods⟩,
    accounts_simpleFunction (accounted_ownName (by decide)) hstore⟩

theorem accounts_service {cls : Code.Class} (hname : Ident.escaped m.name = .ok name)
    (h : imports.service m name cls = .ok items) :
    AccountsFor cls.uses (items.flatMap (·.mentions)) := by
  obtain ⟨methods, hmethods, h⟩ := Outcome.bind_ok.mp h
  cases h
  have hmethods : AccountsFor cls.uses (methods.flatMap (·.mentions)) :=
    (imports.accounts_methods hmethods).mono (List.subset_append_right ..)
  refine List.forall_mem_flatMap.mpr ?_
  simp only [List.forall_mem_cons]
  refine ⟨AccountsFor.name hname (.ownName (by decide) (.ownName (by decide) .nil)),
    AccountsFor.ownName (by decide) ?_, List.forall_mem_nil _⟩
  rw [List.flatMap_cons]
  refine AccountsFor.both .nil (AccountsFor.both ?_ hmethods)
  exact .ownName (by decide) (.ownName (by decide) (.ownName (by decide) .nil))

end

/-- Every name in the items of a file comes from somewhere. -/
theorem accounts_declarations (h : imports.declarations m = .ok items) :
    AccountsFor m.uses (items.flatMap (·.mentions)) := by
  obtain ⟨name, hname, h⟩ := Outcome.bind_ok.mp h
  split at h <;> rename_i hartifact <;> rw [Code.Model.uses, hartifact]
  · exact accounts_customScalar hname h
  · exact accounts_enumeration hname h
  · exact accounts_inputObject hname h
  · exact accounts_outputObject hname h
  · exact accounts_interface hname h
  · exact accounts_fieldSelection hname h
  · exact accounts_service hname h

end

theorem exists_use_of_mem_items {item : Item} (h : item ∈ imports.items) :
    ∃ path names, item = .use false path names := by
  rcases List.mem_append.mp h with h | h
  · split at h
    · cases h
    · exact ⟨_, _, List.mem_singleton.mp h⟩
  · obtain ⟨segments, _, rfl⟩ := List.mem_map.mp h
    exact ⟨_, _, rfl⟩

end Imports

end Rust

end Graphwright
