import Graphwright.Rust.Type

/-!
The types of Rust that a text can spell, read by the grammar of the language. The tokens of a type
are given as a formatter writes them: no arguments in empty angle brackets, no colons before
arguments, lifetimes before other arguments, nothing behind the last of several bounds.
-/
namespace Graphwright.Rust.TypeText

abbrev Parse (α : Type) := StateT (List Token) Option α

/-! ## Single tokens -/

def peek : Parse (Option Token) := do return (← get).head?

def isNext (t : Token) : Parse Bool := do return (← peek) = some t

def isNextSymbol (s : String) : Parse Bool := isNext (.symbol s)

def isNextWord (w : String) : Parse Bool := isNext (.word w)

/-- Takes the next token. -/
def advance : Parse Token := do
  match ← get with
  | t :: ts => set ts; return t
  | [] => failure

/-- Takes a token that has to be there. -/
def expect (t : Token) : Parse (List Token) := do
  if ← isNext t then return [← advance] else failure

def symbol (s : String) : Parse (List Token) := expect (.symbol s)

/-- Takes a token if it is there. -/
def optional (t : Token) : Parse (List Token) := do
  if ← isNext t then return [← advance] else return []

def isLifetime : Option Token → Bool
  | some (.lifetime _) => true
  | _ => false

/-- A name that is no keyword. -/
def isName : Option Token → Bool
  | some (.ident i) => !i.isKeyword
  | _ => false

def isWord : Option Token → Bool
  | some (.ident _) => true
  | _ => false

/-- A name that stands for itself at the start of a path. -/
def isPathWord (t : Option Token) : Bool :=
  t = some (.word "super") || t = some (.word "self") || t = some (.word "Self")
    || t = some (.word "crate")

def isLiteral : Option Token → Bool
  | some (.literal _) => true
  | t => t = some (.word "true") || t = some (.word "false")

def startsBound (t : Option Token) : Bool :=
  isWord t || isLifetime t || t = some (.symbol "::") || t = some (.symbol "?")
    || t = some (.symbol "(")

/-- A bracket with all up to the bracket that closes it. -/
def takeGroup : Nat → List Token → Option (List Token × List Token)
  | _, [] => none
  | depth, .symbol s :: ts =>
    if s = "(" ∨ s = "[" ∨ s = "\x7b" then
      (takeGroup (depth + 1) ts).map fun (group, rest) => (.symbol s :: group, rest)
    else if s = ")" ∨ s = "]" ∨ s = "\x7d" then
      if depth ≤ 1 then some ([.symbol s], ts)
      else (takeGroup (depth - 1) ts).map fun (group, rest) => (.symbol s :: group, rest)
    else (takeGroup depth ts).map fun (group, rest) => (.symbol s :: group, rest)
  | depth, t :: ts => (takeGroup depth ts).map fun (group, rest) => (t :: group, rest)

def group : Parse (List Token) := do
  match takeGroup 0 (← get) with
  | some (tokens, rest) => set rest; return tokens
  | none => failure

def joined (separator : String) (parts : List (List Token)) : List Token :=
  [Token.symbol separator].intercalate parts

/-! ## Constants -/

def isOperator (t : Option Token) : Bool :=
  ["+", "-", "*", "/", "%", "&", "|", "^"].any fun s => t = some (.symbol s)

/-- A number, name, call, macro or bracket, behind signs. -/
def operand : Nat → Parse (List Token)
  | 0 => failure
  | n + 1 => do
    let next ← peek
    if isLiteral next ∨ isName next ∨ isPathWord next then
      let first ← advance
      if ← isNextSymbol "::" then return first :: (← symbol "::") ++ (← operand n)
      if ← isNextSymbol "(" then return first :: (← group)
      if ← isNextSymbol "!" then return first :: (← symbol "!") ++ (← group)
      return [first]
    if next = some (.symbol "(") ∨ next = some (.symbol "\x7b") then group
    else if next = some (.symbol "-") ∨ next = some (.symbol "!") then
      return (← advance) :: (← operand n)
    else failure

/-- Operands that operators join. -/
def constant : Nat → Parse (List Token)
  | 0 => failure
  | n + 1 => do
    let first ← operand n
    if isOperator (← peek) then return first ++ [← advance] ++ (← constant n) else return first

/-! ## Types -/

/-- A path as read: its tokens, whether it is one segment, whether no segment has arguments, and
whether the last one has none. -/
structure PathText where
  tokens : List Token
  isSingle : Bool
  isBare : Bool
  endsBare : Bool

/-- The bounds of a type: their tokens, whether one is a trait, and whether a plus occurs. -/
structure Bounds where
  tokens : List Token
  hasTrait : Bool
  hasPlus : Bool

mutual

/-- A type; bounds are joined by a plus only where that is allowed. Every call takes from the
fuel. -/
def type : Nat → Bool → Parse (TypeForm × List Token)
  | 0, _ => failure
  | n + 1, allowsPlus => do
    let binder ← binder n
    let next ← peek
    let startsPath := isName next || isPathWord next
    let startsFunction := next = some (.word "fn") || next = some (.word "unsafe")
      || next = some (.word "extern")
    if binder ≠ [] ∧ !startsPath ∧ !startsFunction then failure
    if startsFunction then return (.other, binder ++ (← functionType n))
    if startsPath ∨ next = some (.symbol "::") ∨ next = some (.symbol "<") then
      pathType n allowsPlus binder
    else if isLifetime next then
      let bounds ← bounds n true
      if bounds.hasTrait then return (if bounds.hasPlus then .bounds else .other, bounds.tokens)
      else failure
    else match next with
    | some (.symbol "(") => parenthesized n allowsPlus
    | some (.symbol "[") => do
      let opening ← symbol "["
      let (_, elem) ← type n true
      if ← isNextSymbol ";" then
        return (.other, opening ++ elem ++ (← symbol ";") ++ (← constant n) ++ (← symbol "]"))
      return (.other, opening ++ elem ++ (← symbol "]"))
    | some (.symbol "*") => do
      let star ← symbol "*"
      let kind ← if ← isNextWord "mut" then expect (.word "mut") else expect (.word "const")
      return (.other, star ++ kind ++ (← type n false).2)
    | some (.symbol "&") => do
      let ampersand ← symbol "&"
      let lifetime ← if isLifetime (← peek) then pure [← advance] else pure []
      let mutable ← optional (.word "mut")
      return (.other, ampersand ++ lifetime ++ mutable ++ (← type n false).2)
    | some (.symbol "!") => return (.never, ← symbol "!")
    | some (.ident ⟨"_", false⟩) => return (.other, [← advance])
    | some (.ident ⟨"dyn", false⟩) => do
      let first ← advance
      let bounds ← bounds n allowsPlus
      if !bounds.hasTrait then failure
      return (if bounds.hasPlus then .bounds else .other, first :: bounds.tokens)
    | some (.ident ⟨"impl", false⟩) => do
      let first ← advance
      let bounds ← bounds n allowsPlus
      if !bounds.hasTrait then failure
      return (if bounds.hasPlus then .bounds else .other, first :: bounds.tokens)
    | _ => failure

/-- A path, which may be that of a macro or the first of several bounds. -/
def pathType : Nat → Bool → List Token → Parse (TypeForm × List Token)
  | 0, _, _ => failure
  | n + 1, allowsPlus, binder => do
    if ← isNextSymbol "<" then
      let opening ← symbol "<"
      let (_, base) ← type n true
      let interface ← if ← isNextWord "as" then
          pure ((← expect (.word "as")) ++ (← path n).tokens)
        else pure []
      let closing ← symbol ">"
      let colons ← symbol "::"
      let rest ← callArguments n (← segments n)
      if binder ≠ [] then failure
      return (.qualified, opening ++ base ++ interface ++ closing ++ colons ++ rest.tokens)
    let whole ← callArguments n (← path n)
    if (← isNextSymbol "!") ∧ whole.isBare then
      let bang ← symbol "!"
      let next ← peek
      if next = some (.symbol "(") ∨ next = some (.symbol "[") ∨ next = some (.symbol "\x7b") then
        return (.other, whole.tokens ++ bang ++ (← group))
      failure
    if allowsPlus ∧ (← isNextSymbol "+") then
      return (.bounds, binder ++ whole.tokens ++ (← moreBounds n))
    return (if binder = [] then .path else .other, binder ++ whole.tokens)

/-- What stands in round brackets: a tuple, a bound or a type. -/
def parenthesized : Nat → Bool → Parse (TypeForm × List Token)
  | 0, _ => failure
  | n + 1, allowsPlus => do
    let opening ← symbol "("
    if ← isNextSymbol ")" then return (.other, opening ++ (← symbol ")"))
    if ← isNextSymbol "?" then
      let (_, first) ← bound n
      let whole := opening ++ first ++ (← symbol ")")
      if ← isNextSymbol "+" then return (.bounds, whole ++ (← moreBounds n))
      return (.other, whole)
    let (form, first) ← type n true
    if ← isNextSymbol "," then
      let _ ← symbol ","
      let rest ← types n
      let comma := if rest = [] then [Token.symbol ","] else []
      return (.other, opening ++ joined "," (first :: rest) ++ comma ++ (← symbol ")"))
    let whole := opening ++ first ++ (← symbol ")")
    if allowsPlus ∧ form = .path ∧ (← isNextSymbol "+") then
      return (.bounds, whole ++ (← moreBounds n))
    return (.other, whole)

/-- Types that commas separate, up to a closing bracket. -/
def types : Nat → Parse (List (List Token))
  | 0 => failure
  | n + 1 => do
    if ← isNextSymbol ")" then return []
    let (_, first) ← type n true
    if ← isNextSymbol "," then
      let _ ← symbol ","
      return first :: (← types n)
    return [first]

/-- The type that a function returns, if one is given. -/
def returned : Nat → Parse (List Token)
  | 0 => failure
  | n + 1 => do
    if ← isNextSymbol "->" then return (← symbol "->") ++ (← type n false).2 else return []

def functionType : Nat → Parse (List Token)
  | 0 => failure
  | n + 1 => do
    let unsafeWord ← optional (.word "unsafe")
    let convention ← if ← isNextWord "extern" then
        let word ← expect (.word "extern")
        if isLiteral (← peek) then pure (word ++ [← advance]) else pure word
      else pure []
    let head ← expect (.word "fn")
    let opening ← symbol "("
    let params ← functionParams n
    let closing ← symbol ")"
    return unsafeWord ++ convention ++ head ++ opening ++ joined "," params ++ closing
      ++ (← returned n)

/-- Parameters, which may have names; three points at the end stand for more of them. -/
def functionParams : Nat → Parse (List (List Token))
  | 0 => failure
  | n + 1 => do
    if ← isNextSymbol ")" then return []
    let tokens ← get
    let isNamed := (isName tokens.head? || tokens.head? = some (.word "_"))
      && tokens[1]? = some (.symbol ":")
    let name ← if isNamed then pure ([← advance] ++ (← symbol ":")) else pure []
    if ← isNextSymbol "." then
      let points := (← symbol ".") ++ (← symbol ".") ++ (← symbol ".")
      let _ ← optional (.symbol ",")
      return [name ++ points]
    let (_, first) ← type n true
    if ← isNextSymbol "," then
      let _ ← symbol ","
      return (name ++ first) :: (← functionParams n)
    return [name ++ first]

/-- Lifetimes that a type is given for. -/
def binder : Nat → Parse (List Token)
  | 0 => failure
  | n + 1 => do
    if ← isNextWord "for" then
      return (← expect (.word "for")) ++ (← symbol "<") ++ joined "," (← lifetimes n) ++ (← symbol ">")
    else return []

def lifetimes : Nat → Parse (List (List Token))
  | 0 => failure
  | n + 1 => do
    if !isLifetime (← peek) then return []
    let first ← advance
    if ← isNextSymbol "," then
      let _ ← symbol ","
      return [first] :: (← lifetimes n)
    return [[first]]

/-- Bounds that a plus joins. -/
def bounds : Nat → Bool → Parse Bounds
  | 0, _ => failure
  | n + 1, allowsPlus => do
    let (isTrait, first) ← bound n
    if allowsPlus ∧ (← isNextSymbol "+") then
      let _ ← symbol "+"
      if startsBound (← peek) then
        let rest ← bounds n true
        return ⟨first ++ [.symbol "+"] ++ rest.tokens, isTrait || rest.hasTrait, true⟩
      return ⟨first, isTrait, true⟩
    return ⟨first, isTrait, false⟩

/-- What follows the first of several bounds. -/
def moreBounds : Nat → Parse (List Token)
  | 0 => failure
  | n + 1 => do
    let plus ← symbol "+"
    if startsBound (← peek) then
      return plus ++ (← bounds n true).tokens
    return []

/-- A bound, and whether it is a trait. -/
def bound : Nat → Parse (Bool × List Token)
  | 0 => failure
  | n + 1 => do
    if isLifetime (← peek) then return (false, [← advance])
    if ← isNextSymbol "(" then
      let opening ← symbol "("
      let (_, inner) ← traitBound n
      return (true, opening ++ inner ++ (← symbol ")"))
    traitBound n

def traitBound : Nat → Parse (Bool × List Token)
  | 0 => failure
  | n + 1 => do
    let before ← binder n
    let modifier ← optional (.symbol "?")
    let whole ← callArguments n (← path n)
    return (true, before ++ modifier ++ whole.tokens)

def path : Nat → Parse PathText
  | 0 => failure
  | n + 1 => do
    let leading ← optional (.symbol "::")
    let rest ← segments n
    return { rest with
      tokens := leading ++ rest.tokens, isSingle := rest.isSingle && leading = [] }

/-- Segments that double colons join. -/
def segments : Nat → Parse PathText
  | 0 => failure
  | n + 1 => do
    let first ← segment n
    let tokens ← get
    if tokens.head? = some (.symbol "::") ∧ tokens[1]? ≠ some (.symbol "(") then
      let colons ← symbol "::"
      let rest ← segments n
      return ⟨first.tokens ++ colons ++ rest.tokens, false, first.isBare && rest.isBare,
        rest.endsBare⟩
    return first

def segment : Nat → Parse PathText
  | 0 => failure
  | n + 1 => do
    let next ← peek
    if next = some (.word "super") ∨ next = some (.word "self") ∨ next = some (.word "crate")
        ∨ next = some (.word "try") then
      return ⟨[← advance], true, true, true⟩
    if !(isName next || next = some (.word "Self")) then failure
    let name ← advance
    let tokens ← get
    if tokens.head? = some (.symbol "<") then
      let args ← arguments n
      return ⟨name :: args, true, false, args = []⟩
    if tokens.head? = some (.symbol "::") ∧ tokens[1]? = some (.symbol "<") then
      let _ ← advance
      let args ← arguments n
      return ⟨name :: args, true, false, args = []⟩
    return ⟨[name], true, true, true⟩

/-- The arguments in round brackets behind a path whose last segment has none. -/
def callArguments : Nat → PathText → Parse PathText
  | 0, _ => failure
  | n + 1, whole => do
    let tokens ← get
    let isCall := tokens.head? = some (.symbol "(")
      || tokens.head? = some (.symbol "::") && tokens[1]? = some (.symbol "(")
    if !whole.endsBare ∨ !isCall then return whole
    let _ ← optional (.symbol "::")
    let opening ← symbol "("
    let params ← types n
    let closing ← symbol ")"
    let result ← returned n
    return ⟨whole.tokens ++ opening ++ joined "," params ++ closing ++ result, false, false, false⟩

/-- The arguments in angle brackets; empty brackets are dropped. -/
def arguments : Nat → Parse (List Token)
  | 0 => failure
  | n + 1 => do
    let opening ← symbol "<"
    let args ← argumentList n
    let closing ← symbol ">"
    if args = [] then return []
    let ordered := args.filter (·.1) ++ args.filter (!·.1)
    return opening ++ joined "," (ordered.map (·.2)) ++ closing

/-- Arguments that commas separate, each with whether it is a lifetime. -/
def argumentList : Nat → Parse (List (Bool × List Token))
  | 0 => failure
  | n + 1 => do
    if ← isNextSymbol ">" then return []
    let first ← argument n
    if ← isNextSymbol "," then
      let _ ← symbol ","
      return first :: (← argumentList n)
    return [first]

def argument : Nat → Parse (Bool × List Token)
  | 0 => failure
  | n + 1 => do
    let tokens ← get
    if isLifetime tokens.head? ∧ tokens[1]? ≠ some (.symbol "+") then return (true, [← advance])
    if isLiteral tokens.head? ∨ tokens.head? = some (.symbol "-") then
      return (false, ← operand n)
    if tokens.head? = some (.symbol "\x7b") then return (false, ← group)
    let (form, first) ← type n true
    let isBinding := form = .path && isName tokens.head? && tokens[1]? ≠ some (.symbol "::")
    if isBinding ∧ (← isNextSymbol "=") then
      let equals ← symbol "="
      let next ← peek
      if isLiteral next then return (false, first ++ equals ++ (← operand n))
      if next = some (.symbol "\x7b") then return (false, first ++ equals ++ (← group))
      return (false, first ++ equals ++ (← type n true).2)
    if isBinding ∧ (← isNextSymbol ":") then
      let colon ← symbol ":"
      return (false, first ++ colon ++ (← bounds n true).tokens)
    return (false, first)

end

/-- Each call of the grammar reads a token, or is one of at most eight calls before one is read. -/
def fuelFor (tokens : List Token) : Nat := 8 * (tokens.length + 1)

def ofTokens? (tokens : List Token) : Option Ty :=
  match type (fuelFor tokens) true tokens with
  | some ((form, spelled), []) => some (.verbatim form spelled)
  | _ => none

/-- The type that a text spells. -/
def ofText? (text : String) : Option Ty := do ofTokens? (← Token.ofText? text)

end Graphwright.Rust.TypeText
