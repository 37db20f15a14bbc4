import Graphwright.Client.Basic
import Graphwright.Response.Transport

/-!
# Running generated methods

What a method of an input object, a selection builder or the service does when it is called. Its
statements are read as the target language has them: a question mark ends the method with the
failure it meets, a statement changes a local or the store of the receiver, and whatever has no
meaning gets stuck. The values of parameters, what decoders yield and the way to a server are given
by a host, about which nothing is assumed.
-/
namespace Graphwright.Execution

open Code (Method Param Stmt)

structure Host (m : Type → Type) where
  Value : Type
  toInput : Value → InputValue
  Decoded : Type
  decode : Code.Decoder → Response.Decoder Decoded
  send : Transport m

variable {m : Type → Type}

/-! ## Values and frames -/

inductive Datum (H : Host m)
  | text (s : String)
  /-- The value of a parameter, or of one that may be left out. -/
  | value (v : H.Value)
  | option (v : Option H.Value)
  | input (v : InputValue)
  | arguments (a : Arguments)
  | selection (s : Selection)
  | request (q : Request)
  | response (members : List (String × Json))
  | decoded (x : H.Decoded)
  | transport
  /-- An item with its one store. -/
  | item (store : String) (content : Datum H)
  | success (d : Datum H)
  | failure (e : ClientError)

namespace Datum

variable {H : Host m}

/-- The outcome of something that may fail. -/
def ofExcept : Except ClientError (Datum H) → Datum H
  | .ok d => success d
  | .error e => failure e

@[simp] theorem ofExcept_ok (d : Datum H) : ofExcept (.ok d) = success d := rfl

@[simp] theorem ofExcept_error (e : ClientError) : ofExcept (.error e) = (failure e : Datum H) := rfl

/-- A selection builder in which `s` has been recorded. -/
def builder (s : Selection) : Datum H := item Code.selectionStore (selection s)

/-- An input object with its payload. -/
def inputObject (payload : Arguments) : Datum H := item Code.inputStore (arguments payload)

def service : Datum H := item Code.transportStore transport

def insert? (key : String) (v : InputValue) : Datum H → Option (Datum H)
  | arguments a => some (arguments (a.insert key v))
  | _ => none

def select? (field : String) (a : Arguments) (nested : Option Selection) :
    Datum H → Option (Datum H)
  | selection s => some (selection (s.select field a nested))
  | _ => none

end Datum

/-- Why the rest of a method is not run. -/
inductive Exit (H : Host m)
  | returned (d : Datum H)
  | stuck

structure Frame (H : Host m) where
  self? : Option (Datum H)
  locals : List (String × Datum H)

namespace Frame

variable {H : Host m}

def bind (frame : Frame H) (name : String) (d : Datum H) : Frame H :=
  { frame with locals := Entries.put name d frame.locals }

@[simp] theorem self?_bind (frame : Frame H) (name : String) (d : Datum H) :
    (frame.bind name d).self? = frame.self? := rfl

theorem get?_bind (frame : Frame H) (name other : String) (d : Datum H) :
    Entries.get? other (frame.bind name d).locals
      = if name = other then some d else Entries.get? other frame.locals :=
  Entries.get?_put other name d frame.locals

/-- Changes what a local or the store of the receiver holds. -/
def update? (frame : Frame H) (change : Datum H → Option (Datum H)) :
    Code.Expr → Option (Frame H)
  | .var name => do return frame.bind name (← change (← Entries.get? name frame.locals))
  | .field .self store =>
    match frame.self? with
    | some (.item name content) =>
      if name = store then
        (change content).map fun content => { frame with self? := some (.item name content) }
      else none
    | _ => none
  | _ => none

end Frame

/-- What a method sees of its item: the constants, and the methods to call. -/
structure Context (H : Host m) where
  constants : List Code.Constant
  call : String → Option (Datum H) → List (Datum H) → OptionT m (Datum H)

/-! ## Expressions and statements -/

section

variable [Monad m] {H : Host m}

abbrev Eval (H : Host m) := ExceptT (Exit H) m

def stuck {α : Type} : Eval H α := throw .stuck

def Eval.ofOption {α : Type} : Option α → Eval H α
  | some a => pure a
  | none => stuck

/-- A method that is called either yields a value or is stuck. -/
def Eval.ofCall {α : Type} (x : OptionT m α) : Eval H α := ExceptT.mk do
  match ← x.run with
  | some a => return .ok a
  | none => return .error .stuck

/-- What is sent goes to the host. -/
def transmit (H : Host m) (q : Request) : Eval H (Datum H) := ExceptT.mk do
  match ← (H.send q).run with
  | .ok members => return .ok (.success (.response members))
  | .error e => return .ok (.failure e)

/-- The selection that a local builder gives up, if one is named. -/
def Frame.nested (frame : Frame H) : Option String → Eval H (Option Selection)
  | none => pure none
  | some param =>
    match Entries.get? param frame.locals with
    | some (.item store (.selection s)) =>
      if store = Code.selectionStore then pure (some s) else stuck
    | _ => stuck

@[simp] theorem Eval.ofOption_some {α : Type} (a : α) :
    (Eval.ofOption (some a) : Eval H α) = pure a := rfl

namespace Context

variable (c : Context H) (frame : Frame H)

mutual

def expr : Code.Expr → Eval H (Datum H)
  | .var name => .ofOption (Entries.get? name frame.locals)
  | .self => .ofOption frame.self?
  | .field base name => do
    match ← expr base with
    | .item store content => if store = name then return content else stuck
    | _ => stuck
  | .constant name => .ofOption ((c.constants.find? (·.name = name)).map (.text ·.value))
  | .str text => return .text text
  | .arguments es => do return .arguments (.ofList (← entries es))
  | .toInput value => do
    match ← expr value with
    | .value v => return .input (H.toInput v)
    | _ => stuck
  | .methodCall receiver method args => do
    let receiver ← expr receiver
    let args ← exprs args
    .ofCall (c.call method (some receiver) args)
  | .associatedCall function args => do
    let args ← exprs args
    .ofCall (c.call function none args)
  | .construct stores => do
    match ← fields stores with
    | [(store, content)] => return .item store content
    | _ => stuck
  | .request kind action arguments selection => do
    match ← expr arguments with
    | .arguments a =>
      let nested ← frame.nested selection
      return .ofExcept (.request <$> Request.of kind action a nested)
    | _ => stuck
  | .send request => do
    match ← expr request, frame.self? with
    | .request q, some (.item store .transport) =>
      if store = Code.transportStore then transmit H q else stuck
    | _, _ => stuck
  | .attempt value => do
    match ← expr value with
    | .success d => return d
    | .failure e => throw (.returned (.failure e))
    | _ => stuck
  | .borrow value => expr value
  | .decode source key decoder presence => do
    match ← expr source, presence with
    | .response members, .required =>
      return .ofExcept (.decoded <$> Response.required members key (H.decode decoder))
    | _, _ => stuck
  | .success value => do return .success (← expr value)
  -- Slots belong to output objects, whose factories are run in their own way.
  | .unset => stuck
  | .readHydrated _ _ _ => stuck
  | .delegate _ _ => stuck

def exprs : List Code.Expr → Eval H (List (Datum H))
  | [] => return []
  | e :: es => do
    let d ← expr e
    return d :: (← exprs es)

def entries : List (Code.Expr × Code.Expr) → Eval H (List (String × InputValue))
  | [] => return []
  | (key, value) :: rest => do
    match ← expr key, ← expr value with
    | .text key, .input v => return (key, v) :: (← entries rest)
    | _, _ => stuck

def fields : List (String × Code.Expr) → Eval H (List (String × Datum H))
  | [] => return []
  | (name, value) :: rest => do
    let d ← expr value
    return (name, d) :: (← fields rest)

end

def stmt : Stmt → Eval H (Frame H)
  | .bind name _ value => do return frame.bind name (← c.expr frame value)
  | .assign target value => do
    let d ← c.expr frame value
    .ofOption (frame.update? (fun _ => some d) target)
  | .insert map key value => do
    match ← c.expr frame key, ← c.expr frame value with
    | .text key, .input v => .ofOption (frame.update? (Datum.insert? key v) map)
    | _, _ => stuck
  | .insertIfPresent map key param => do
    match ← c.expr frame key, Entries.get? param frame.locals with
    | .text _, some (.option none) => return frame
    | .text key, some (.option (some v)) =>
      .ofOption (frame.update? (Datum.insert? key (H.toInput v)) map)
    | _, _ => stuck
  | .returnSelfIfAbsent param =>
    match Entries.get? param frame.locals, frame.self? with
    | some (.option none), some self => throw (.returned self)
    | some (.option (some v)), _ => return frame.bind param (.value v)
    | _, _ => stuck
  | .select selection field arguments nested => do
    match ← c.expr frame field, ← c.expr frame arguments with
    | .text name, .arguments a =>
      let nested ← frame.nested nested
      .ofOption (frame.update? (Datum.select? name a nested) selection)
    | _, _ => stuck
  | .return value => do throw (.returned (← c.expr frame value))

/-- The frame behind the last statement, unless the method has been left before. -/
def stmts (c : Context H) : Frame H → List Stmt → Eval H (Frame H)
  | frame, [] => return frame
  | frame, s :: ss => do c.stmts (← c.stmt frame s) ss

end Context

/-- What a method yields that is left in one way or another. -/
def outcome (x : Eval H (Frame H)) : OptionT m (Datum H) := OptionT.mk do
  match ← x.run with
  | .error (.returned d) => return some d
  | _ => return none

/-- Calls a method of an item; `depth` bounds how deep calls nest. -/
def invoke (H : Host m) (cls : Code.Class) :
    Nat → String → Option (Datum H) → List (Datum H) → OptionT m (Datum H)
  | 0, _, _, _ => failure
  | depth + 1, name, receiver, args =>
    match cls.methods.find? (·.name = name) with
    | some method =>
      if method.params.length = args.length ∧ (method.receiver = .static ↔ receiver = none) then
        outcome <| Context.stmts ⟨cls.constants, invoke H cls depth⟩
          ⟨receiver, (method.params.map (·.name)).zip args⟩ method.body
      else failure
    | none => failure

/-! ## Laws -/

theorem invoke_succ {cls : Code.Class} {depth : Nat} {name : String} {receiver : Option (Datum H)}
    {args : List (Datum H)} {method : Method}
    (hfind : cls.methods.find? (·.name = name) = some method)
    (hparams : method.params.length = args.length)
    (hreceiver : method.receiver = .static ↔ receiver = none) :
    invoke H cls (depth + 1) name receiver args = outcome (Context.stmts
      ⟨cls.constants, invoke H cls depth⟩ ⟨receiver, (method.params.map (·.name)).zip args⟩
      method.body) := by
  rw [invoke, hfind]
  exact if_pos ⟨hparams, hreceiver⟩

variable [LawfulMonad m]

theorem Context.stmts_append {c : Context H} (frame : Frame H) (ss ss' : List Stmt) :
    c.stmts frame (ss ++ ss') = c.stmts frame ss >>= (c.stmts · ss') := by
  induction ss generalizing frame with
  | nil => simp [stmts]
  | cons s ss ih => simp [stmts, ih]

@[simp] theorem outcome_throw (d : Datum H) :
    outcome (throw (.returned d)) = (pure d : OptionT m (Datum H)) := by
  apply OptionT.ext
  simp [outcome]

@[simp] theorem Eval.ofCall_pure {α : Type} (a : α) :
    (Eval.ofCall (pure a) : Eval H α) = pure a := by
  apply ExceptT.ext
  simp [ofCall]

end

end Graphwright.Execution
