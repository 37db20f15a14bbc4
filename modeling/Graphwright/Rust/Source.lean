import Graphwright.Rust.Syntax
import Graphwright.Text.Layout

/-!
The text of a file. Bodies are indented by four columns, what does not fit on a line is written
one part per line with a comma behind the last, and a chain of calls is broken before its points.
-/
namespace Graphwright.Rust

open Text (Layout)

namespace Source

/-! ## Places where lines end -/

def space : Layout := .break { blanks := 1 }

def zero : Layout := .break { blanks := 0 }

/-- A place behind which a group is fitted anew, though no line ends there. -/
def solid : Layout := .break { blanks := 0, isSolid := true }

def hard : Layout := .break { blanks := 0, isHard := true }

/-- The end of the last line of a body. -/
def lastHard : Layout := .break { blanks := 0, isHard := true, offset := -4 }

/-- The end of a list that is closed behind `blanks` blanks, or else on a line of its own behind a
comma. -/
def lastComma (blanks : Nat) : Layout := .break { blanks := blanks, offset := -4, before := "," }

/-- Parts that commas separate. -/
def separated : List (List Layout) → List Layout
  | [] => []
  | [part] => part
  | part :: parts => part ++ [.text ",", space] ++ separated parts

/-- A list between brackets, whose parts start `indent` deeper on lines of their own. -/
def listed (opening closing : String) (indent : Int) (parts : List (List Layout)) : List Layout :=
  if parts = [] then [.text opening, .text closing]
  else
    [.text opening, .group true indent none ([zero] ++ separated parts ++ [lastComma 0]),
      .text closing]

/-- Lines that are all ended, the last one so that a closing brace follows. -/
def lines : List (List Layout) → List Layout
  | [] => []
  | [line] => line ++ [lastHard]
  | line :: rest => line ++ [hard] ++ lines rest

/-- What stands before a body, and the body. -/
def braced (header : List Layout) (body : List (List Layout)) : List Layout :=
  if body = [] then [.group true 4 none (header ++ [.text "\x7b"]), .text "\x7d"]
  else [.group true 4 none (header ++ [.text "\x7b", hard] ++ lines body), .text "\x7d"]

/-! ## Names and types -/

def pathText (segments : List Ident) : String := "::".intercalate (segments.map Ident.text)

def isWordLike : Token → Bool
  | .symbol _ => false
  | _ => true

/-- Whether a blank stands between two tokens of a type. -/
def needsBlank : Token → Token → Bool
  | .symbol s, t => s ∈ [",", ";", ":", "+", "=", "->", "\x7b"] || s = ">" && isWordLike t
  | .ident i, .symbol s =>
    s ∈ ["+", "=", "->", "\x7b", "\x7d"] || i.name ∈ ["mut", "const", "dyn", "impl", "as"]
  | _, .symbol s => s ∈ ["+", "=", "->", "\x7d"]
  | _, _ => true

def spelled : List Token → String
  | [] => ""
  | [t] => t.text
  | t :: u :: ts => t.text ++ (if needsBlank t u then " " else "") ++ spelled (u :: ts)

mutual

def type : Ty → List Layout
  | .path qualifier name args =>
    let whole := Layout.text (pathText (qualifier ++ [name]))
    if args = [] then [whole] else whole :: listed "<" ">" 4 (types args)
  | .reference isStatic elem => .text (if isStatic then "&'static " else "&") :: type elem
  | .slice elem => [.text "["] ++ type elem ++ [.text "]"]
  | .verbatim _ tokens => [.text (spelled tokens)]

def types : List Ty → List (List Layout)
  | [] => []
  | t :: ts => type t :: types ts

end

/-! ## Expressions -/

/-- Whether a name is so short that a point may follow it on the first line of a chain. -/
def isShortName : Expr → Bool
  | .path [i] => i.text.utf8ByteSize ≤ 4
  | _ => false

/-- Whether an expression, as the only argument, is written straight behind the bracket. -/
def isBlockLike : Expr → Bool
  | .array _ => true
  | .tuple _ => true
  | .construct _ => true
  | .closure _ _ _ => true
  | _ => false

/-- Whether the body of a closure is put into braces when it does not fit. -/
def isBracedBody : Expr → Bool
  | .call _ _ => false
  | .select _ _ => false
  | e => !isBlockLike e

def pointBreak (startsLine : Bool) (receiver : Expr) : List Layout :=
  if startsLine && isShortName receiver then [] else [zero]

/-- What is chained onto by a point or call stands at the depth of the chain's first line. -/
def chained (isInner : Bool) (parts : List Layout) : List Layout :=
  if isInner then [.group true (-4) none parts] else parts

/-- A chain is a group of its own, unless it is part of a longer one. -/
def chain (isInner : Bool) (parts : List Layout) : List Layout :=
  if isInner then parts else [.group true 4 none parts]

mutual

/-- The layout of an expression: `isInner` if it is continued by a point or call, `startsLine` if it
stands at the start of a statement. -/
def expr (isInner startsLine : Bool) : Expr → List Layout
  | .path segments => chained isInner [.text (pathText segments)]
  | .function segments t =>
    chained isInner (.text (pathText segments ++ "::") :: listed "<" ">" 4 [type t])
  | .str text => chained isInner [.text (Token.stringText text)]
  | .call function args =>
    expr isInner (startsLine && !isInner) function ++ [.text "("] ++ callArgs args ++ [.text ")"]
  | .methodCall receiver method args =>
    let unindent := startsLine && !isInner && isShortName receiver
    chain isInner <| expr true startsLine receiver ++ pointBreak startsLine receiver
      ++ [.text ("." ++ method.text),
        .group true (if unindent then -4 else 0) none
          ([.text "("] ++ callArgs args ++ [.text ")"])]
  | .field base name =>
    chain isInner <| expr true startsLine base ++ pointBreak startsLine base
      ++ [.text ("." ++ name.text)]
  | .borrow value => chained isInner (.text "&" :: expr false false value)
  | .dereference value => chained isInner (.text "*" :: expr false false value)
  | .attempt value => expr isInner startsLine value ++ [.text "?"]
  | .paren value => chained isInner ([.text "("] ++ expr false false value ++ [.text ")"])
  | .array elems => chained isInner (listed "[" "]" 4 (exprs elems))
  | .tuple elems => chained isInner (listed "(" ")" 4 (exprs elems))
  | .construct fields =>
    chained isInner <|
      if fields.isEmpty then [.text "Self \x7b\x7d"]
      else
        [.group true 4 (some 34)
          ([.text "Self \x7b", space] ++ separated (fieldValues fields) ++ [lastComma 1]),
          .text "\x7d"]
  | .closure param t body =>
    let typed := match t with
      | some t => .text ": " :: type t
      | none => []
    let head := Layout.group true 4 none
      ([.text "|", zero, .text param.text] ++ typed
        ++ [.text "|", .break { blanks := 1, offset := -4 }])
    let rest := expr false false body
    chained isInner <| [head, solid] ++
      if isBracedBody body then
        [.group true 4 none ([.break { blanks := 0, before := "\x7b" }] ++ rest
          ++ [.break { blanks := 0, offset := -4, after := "\x7d" }])]
      else rest
  | .select subject arms =>
    chained isInner [.group false 0 none
      ([.text "match ", .group true 0 none (expr false false subject ++ [.text " "])]
        ++ braced [] (armLines arms))]

def callArgs : List Expr → List Layout
  | [] => []
  | [e] =>
    if isBlockLike e then expr false false e
    else [.group true 4 none ([zero] ++ expr false false e ++ [lastComma 0])]
  | e :: es =>
    [.group true 4 none ([zero] ++ separated (expr false false e :: exprs es) ++ [lastComma 0])]

def exprs : List Expr → List (List Layout)
  | [] => []
  | e :: es => expr false false e :: exprs es

def fieldValues : List (Ident × Option Expr) → List (List Layout)
  | [] => []
  | (name, some value) :: fields =>
    [.text (name.text ++ ": "), .group false 0 none (expr false false value)] :: fieldValues fields
  | (name, none) :: fields => [.text name.text] :: fieldValues fields

def armLines : List (Option (List Ident) × Expr) → List (List Layout)
  | [] => []
  | (pattern, body) :: arms =>
    let shown := match pattern with
      | some segments => pathText segments
      | none => "_"
    [.group false 0 none
      [.text (shown ++ " => "), solid,
        .group true 4 none ([.break { blanks := 0, before := "\x7b" }] ++ expr false true body
          ++ [.break { blanks := 0, offset := -4, after := "\x7d", inLine := "," }])]]
      :: armLines arms

end

/-! ## Statements -/

/-- The pattern of an optional value that is there. -/
def somePattern (name : Ident) : List Layout :=
  .text "Some" :: listed "(" ")" 4 [[.text name.text]]

def stmt : Stmt → List Layout
  | .bind name isMutable value =>
    [.group false 0 none
      ([.text ("let " ++ (if isMutable then "mut " else "") ++ name.text ++ " = "), solid]
        ++ expr false false value), .text ";"]
  | .bindOrReturnSelf name =>
    [.group false 0 none
      ([.text "let "] ++ somePattern name ++ [.text " = ", solid, .text name.text, space,
        .text "else "]), solid]
      ++ braced [] [[.text "return self;"]] ++ [.text ";"]
  | .ifPresent name body =>
    [.group false 0 none <| braced
      [.text "if ", .group true (-4) none
        ([.text "let "] ++ somePattern name ++ [.text " = ", solid, .text name.text, .text " "])]
      [[.group false 0 none (expr false true body ++ [.text ";"])]]]
  | .assign target value =>
    [.group false 0 none
      ([.group false 0 none (expr false true target ++ [.text " = ", solid]
        ++ expr false false value)] ++ [.text ";"])]
  | .perform value => [.group false 0 none (expr false true value ++ [.text ";"])]
  | .return value =>
    [.group false 0 none ([.text "return "] ++ expr false false value ++ [.text ";"])]
  | .result value => [.group false 0 none (expr false true value)]

/-! ## Items -/

/-- Whether a text of several lines can stand in a comment. -/
def fitsComment (text : String) : Bool :=
  let cs := text.toList
  (List.range cs.length).all fun i =>
    let pair := (cs.drop i).take 2
    pair ≠ ['*', '/'] && pair ≠ ['/', '*']

def trimBlanksEnd (cs : List Char) : List Char := (cs.reverse.dropWhile (· = ' ')).reverse

/-- The lines of a text without blanks before the line ends inside it. -/
def trimInside (text : String) : String :=
  let pieces := Text.splitWhere (· = '\n') text.toList
  let trimmed := pieces.dropLast.map trimBlanksEnd ++ pieces.getLast?.toList
  String.ofList (['\n'].intercalate trimmed)

/-- A documentation comment: on a line of its own, or as a block if the text has several lines, or
as an attribute if it would end the block. -/
def comment (isInner : Bool) (text : String) : List Layout :=
  let mark := if isInner then "!" else ""
  let shown :=
    if '\n' ∉ text.toList then
      (if isInner then "//!" else "///") ++ String.ofList (trimBlanksEnd text.toList)
    else if fitsComment text then
      "/*" ++ (if isInner then "!" else "*") ++ trimInside text ++ "*/"
    else "#" ++ mark ++ "[doc = " ++ Token.stringText text ++ "]"
  [.text shown, hard]

def comments (docs : List String) : List Layout := docs.flatMap (comment false)

def derived (derives : List String) : List Layout :=
  if derives = [] then []
  else [.text ("#[derive(" ++ ", ".intercalate derives ++ ")]"), hard]

def visibility (isPublic : Bool) : String := if isPublic then "pub " else ""

def receiver : Receiver → List (List Layout)
  | .none => []
  | .borrowed => [[.text "&self"]]
  | .owned => [[.text "self"]]
  | .mutable => [[.text "mut self"]]

def signature (f : Function) : List Layout :=
  let params := f.params.map fun (name, t) => .text (name.text ++ ": ") :: type t
  [.text (visibility f.isPublic ++ "fn " ++ f.name.text)]
    ++ listed "(" ")" 0 (receiver f.receiver ++ params)
    ++ [.group true (-4) none (.text " -> " :: type f.returns)]

def member : Member → List Layout
  | .constant isPublic name value =>
    [.group true 0 none
      ([.text (visibility isPublic ++ "const " ++ name.text ++ ": ")] ++ type Ty.staticText
        ++ [.text " = ", solid, .text (Token.stringText value), .text ";"])]
  | .function f =>
    comments f.docs ++ match f.body with
      | some body => braced (signature f ++ [.text " "]) (body.map stmt)
      | none => [.group true 4 none (signature f ++ [.text ";"])]

/-- A type parameter in angle brackets. -/
def param : Option TypeParam → List Layout
  | none => []
  | some p =>
    let bound := match p.bound with
      | some t => [Layout.group false 4 none (.text ": " :: type t)]
      | none => []
    listed "<" ">" 0 [.text p.name.text :: bound]

/-- The names below a path; a single one has no braces. -/
def useTree : List Ident → List Layout
  | [name] => [.text name.text]
  | names =>
    [.text "\x7b", .group true 4 none
      ([zero, .group false 0 none (separated (names.map fun i => [.text i.text])), lastComma 0]),
      .text "\x7d"]

def item : Item → List Layout
  | .use isPublic path names =>
    [.text (visibility isPublic ++ "use " ++ pathText path ++ "::")] ++ useTree names
      ++ [.text ";", hard]
  | .module isPublic name => [.text (visibility isPublic ++ "mod " ++ name.text ++ ";"), hard]
  | .enumeration docs derives name variants =>
    comments docs ++ derived derives
      ++ braced [.text ("pub enum " ++ name.text ++ " ")]
        (variants.map fun v => comments v.docs ++ [.text v.name.text, .text ","])
      ++ [hard]
  | .record docs derives name p fields =>
    comments docs ++ derived derives
      ++ braced ([.text ("pub struct " ++ name.text)] ++ param p ++ [.text " "])
        (fields.map fun f => comments f.docs ++ [.text (f.name.text ++ ": ")] ++ type f.type
          ++ [.text ","])
      ++ [hard]
  | .trait docs name members =>
    comments docs ++ braced [.text ("pub trait " ++ name.text ++ " ")] (members.map member)
      ++ [hard]
  | .implementation p implemented t members =>
    let interface := match implemented with
      | some i => type i ++ [.text " for "]
      | none => []
    braced ([.text "impl"] ++ param p ++ [.text " "] ++ interface ++ type t ++ [.text " "])
        (members.map member)
      ++ [hard]
  | .typeAlias docs name t =>
    comments docs
      ++ [.group true 4 none
        [.text ("pub type " ++ name.text ++ " = "), solid, .group false (-4) none (type t),
          .text ";"], hard]

end Source

/-- The text of a file. -/
def File.source (file : File) : String :=
  Text.Layout.render <|
    file.title.flatMap (Source.comment true)
      ++ file.allows.flatMap (fun w => [.text ("#![allow(" ++ w ++ ")]"), Source.hard])
      ++ file.items.flatMap Source.item

end Graphwright.Rust
