import Graphwright.Client.OutputObject
import Graphwright.Response.RawScalar
import Graphwright.Rust.Rendering

/-!
# Running generated decoders

What a decoder does with a response value, given the items of a client: it is put together from the
decoders of the client library, and an output object is hydrated by the statements of its factory.
-/
namespace Graphwright.Execution

open Code

/-- What decoding yields. -/
inductive Value
  | integer (n : Int)
  | float (x : Binary64)
  | boolean (b : Bool)
  | text (s : String)
  | enumeration (wireName : String)
  /-- The value of a custom scalar, as it came. -/
  | raw (value : Json)
  | absent
  | present (value : Value)
  | list (elements : List Value)
  | object (slots : List (String × Slot Value))

def Value.ofOption : Option Value → Value
  | some value => .present value
  | none => .absent

/-! ## Factories -/

/-- Fills a slot with the response entry under a key. -/
structure Step where
  slot : String
  key : String
  decoder : Code.Decoder

/-- What a factory does: it makes an object with these slots, all unset, and takes the steps in
order. -/
structure Factory where
  slots : List String
  steps : List Step

/-- The names in a list of slots that are all unset. -/
def unsetSlots? : List (String × Expr) → Option (List String)
  | [] => some []
  | (name, .unset) :: fields => (unsetSlots? fields).map (name :: ·)
  | _ => none

/-- The slots of the object that a function of the item makes. -/
def madeSlots? (methods : List Method) (function : String) : Option (List String) :=
  match (methods.find? (·.name = function)).map (·.body) with
  | some [Stmt.return (.construct fields)] => unsetSlots? fields
  | _ => none

/-- The steps of statements that fill the slots of the local `object` from the map `source` and then
return it. -/
def steps? (object source : String) : List Stmt → Option (List Step)
  | [.return (.success (.var name))] => if name = object then some [] else none
  | .assign (.field (.var name) slot)
      (.attempt (.decode (.var map) key decoder .optional)) :: rest =>
    if name = object ∧ map = source then
      (steps? object source rest).map (⟨slot, key, decoder⟩ :: ·)
    else none
  | _ => none

/-- What the factory among the methods of an item does. -/
def Factory.ofMethods? (methods : List Method) : Option Factory := do
  let factory ← methods.find? (·.name = Client.factoryName)
  match factory.params, factory.body with
  | [param], .bind object _ (.associatedCall function []) :: rest =>
    return ⟨← madeSlots? methods function, ← steps? object param.name rest⟩
  | _, _ => none

/-! ## Items -/

/-- The items of a client, which refer to each other by path. -/
structure Program where
  home : Namespace
  items : List Model

namespace Program

/-- The values of the enum at a path. -/
def values? (P : Program) (path : String) : Option (List Code.EnumValue) :=
  P.items.findSome? fun item => match item.artifact with
    | .enumeration values => if Rust.itemPath P.home item = path then some values else none
    | _ => none

/-- The factory of the output object at a path. -/
def factory? (P : Program) (path : String) : Option Factory :=
  P.items.findSome? fun item => match item.artifact with
    | .outputObject _ methods _ =>
      if Rust.itemPath P.home item = path then Factory.ofMethods? methods else none
    | _ => none

/-- Whether there is a custom scalar at a path. -/
def hasScalar (P : Program) (path : String) : Bool :=
  P.items.any fun item => match item.artifact with
    | .customScalar => Rust.itemPath P.home item = path
    | _ => false

/-- Every item that the decoder refers to is there and is what the decoder takes it for. -/
def Binds (P : Program) : Code.Decoder → Prop
  | .scalar _ => True
  | .enumeration path => (P.values? path).isSome
  | .object path => (P.factory? path).isSome
  | .customScalar path => P.hasScalar path
  | .list element => P.Binds element
  | .nullable inner => P.Binds inner
  | .boxed inner => P.Binds inner

end Program

/-! ## Decoding -/

def scalar : Primitive → Response.Decoder Value
  | .integer => fun v => .integer <$> Response.int32 v
  | .float => fun v => .float <$> Response.float64 v
  | .boolean => fun v => .boolean <$> Response.boolean v
  | .text => fun v => .text <$> Response.text v

/-- The values of an enum by their wire names. -/
@[reducible] def wireEnum (path : String) (values : List Code.EnumValue) :
    WireEnum Code.EnumValue where
  typeName := path
  values := values
  text := (·.wireName)

def enumeration (path : String) (values : List Code.EnumValue) : Response.Decoder Value := fun v =>
  (fun value => .enumeration value.wireName) <$> @Response.enumeration _ (wireEnum path values) v

def customScalar (path : String) : Response.Decoder Value := fun v =>
  (fun scalar : RawScalar path => .raw scalar.raw) <$> Response.customScalar v

theorem sizeOf_get?_lt {name : String} {value : Json} {members : List (String × Json)}
    (h : Entries.get? name members = some value) : sizeOf value < sizeOf members := by
  have := List.sizeOf_lt_of_mem (Entries.mem_of_get? h)
  simp only [Prod.mk.sizeOf_spec] at this
  omega

mutual
/-- Runs a decoder. What no item stands for has no values and no slots. -/
def run (P : Program) : Code.Decoder → Response.Decoder Value
  | .scalar primitive, v => scalar primitive v
  | .enumeration path, v => enumeration path ((P.values? path).getD []) v
  | .customScalar path, v => customScalar path v
  | .list element, .array elements => .list <$> runElements P element elements
  | .list _, v => Response.unexpected .list v
  | .nullable _, .null => .ok .absent
  | .nullable inner, v => .present <$> run P inner v
  | .boxed inner, v => run P inner v
  | .object path, .object members =>
    let factory := (P.factory? path).getD ⟨[], []⟩
    .object <$> runSteps P members factory.steps (factory.slots.map fun name => (name, .unset))
  | .object _, v => Response.unexpected .object v
  termination_by d v => (sizeOf v, sizeOf d)

def runElements (P : Program) (element : Code.Decoder) : List Json → Except ClientError (List Value)
  | [] => .ok []
  | v :: vs => do
    let first ← run P element v
    return first :: (← runElements P element vs)
  termination_by vs => (sizeOf vs, sizeOf element)

/-- Runs a decoder on the member under a key, if there is one. -/
def runField (P : Program) (members : List (String × Json)) (key : String)
    (decoder : Code.Decoder) : Except ClientError (Slot Value) :=
  match _h : Entries.get? key members with
  | some v => .set <$> run P decoder v
  | none => .ok .unset
  termination_by (sizeOf members, sizeOf decoder)
  decreasing_by exact Prod.Lex.left _ _ (sizeOf_get?_lt _h)

/-- Takes the steps of a factory with the members of a response object. -/
def runSteps (P : Program) (members : List (String × Json)) :
    List Step → List (String × Slot Value) → Except ClientError (List (String × Slot Value))
  | [], slots => .ok slots
  | step :: steps, slots => do
    let slot ← runField P members step.key step.decoder
    runSteps P members steps (Entries.put step.slot slot slots)
  termination_by steps => (sizeOf members, sizeOf steps)
  decreasing_by
    · cases step
      apply Prod.Lex.right
      simp only [List.cons.sizeOf_spec, Step.mk.sizeOf_spec]
      omega
    · apply Prod.Lex.right
      simp only [List.cons.sizeOf_spec]
      omega
end

/-! ## Equations

Each layer of a decoder is the decoder of the client library for that layer. -/

section Equations

variable (P : Program)

theorem runElements_eq_mapM (element : Code.Decoder) (vs : List Json) :
    runElements P element vs = vs.mapM (run P element) := by
  induction vs with
  | nil => rw [runElements]; rfl
  | cons v vs ih => rw [runElements, List.mapM_cons, ih]

theorem run_list (element : Code.Decoder) (v : Json) :
    run P (.list element) v = .list <$> Response.list (run P element) v := by
  cases v with
  | array vs => rw [run, runElements_eq_mapM, Response.list]
  | _ => rw [run] <;> simp [Response.list, Response.unexpected, Functor.map, Except.map]

theorem run_nullable (inner : Code.Decoder) (v : Json) :
    run P (.nullable inner) v = Value.ofOption <$> Response.nullable (run P inner) v := by
  cases v with
  | null => rw [run]; rfl
  | _ =>
      rw [run]
      · simp only [Response.nullable]
        cases run P inner _ <;> rfl
      · nofun

theorem run_boxed (inner : Code.Decoder) (v : Json) : run P (.boxed inner) v = run P inner v := by
  rw [run]

/-- A box makes no difference to what is decoded. -/
theorem run_onHeap (decoder : Code.Decoder) (v : Json) :
    run P decoder.onHeap v = run P decoder v := by
  cases decoder with
  | nullable inner =>
      have he : run P (.boxed inner) = run P inner := funext (run_boxed P inner)
      rw [Code.Decoder.onHeap, run_nullable, run_nullable, he]
  | _ => exact run_boxed P _ v

theorem runField_eq (members : List (String × Json)) (key : String) (decoder : Code.Decoder) :
    runField P members key decoder = Response.field members key (run P decoder) := by
  rw [runField, Response.field]
  split <;> rename_i h <;> rw [h]

theorem runSteps_cons (members : List (String × Json)) (step : Step) (steps : List Step)
    (slots : List (String × Slot Value)) :
    runSteps P members (step :: steps) slots = (do
      let slot ← Response.field members step.key (run P step.decoder)
      runSteps P members steps (Entries.put step.slot slot slots)) := by
  rw [runSteps, runField_eq]

theorem run_object {path : String} {factory : Factory} (h : P.factory? path = some factory)
    (v : Json) :
    run P (.object path) v = Response.object (fun members =>
      .object <$> runSteps P members factory.steps
        (factory.slots.map fun name => (name, .unset))) v := by
  cases v with
  | object members => rw [run, h]; rfl
  | _ => rw [run] <;> simp [Response.object]

end Equations

end Graphwright.Execution
