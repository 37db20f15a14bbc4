import Graphwright.Rust.Ident
import Graphwright.Text.Blank
import Graphwright.Text.CodePoints
import Graphwright.Text.Quoted
import Graphwright.Text.Split

/-!
Tokens of Rust and reading them from text. Blanks and comments separate tokens; a documentation
comment stands for the attribute that holds its text.
-/
namespace Graphwright.Rust

inductive Token
  | ident (i : Ident)
  | lifetime (name : String)
  /-- A literal as it is written. -/
  | literal (text : String)
  /-- Punctuation or a bracket. -/
  | symbol (text : String)
  deriving DecidableEq, Repr

namespace Token

def text : Token → String
  | ident i => i.text
  | lifetime name => "'" ++ name
  | literal text => text
  | symbol text => text

/-- A name written as it is. -/
def word (name : String) : Token := .ident (.plain name)

def startsOctal : List Char → Bool
  | c :: _ => '0' ≤ c && c ≤ '7'
  | [] => false

/-- The characters of a string literal. The escape of a zero is spelled so that no digit can join
it. -/
def stringChars : List Char → List Char
  | [] => []
  | c :: cs =>
    (if c = '\x00' ∧ startsOctal cs then ['\\', 'x', '0', '0'] else Text.escapeChar c)
      ++ stringChars cs

/-- The text of the literal of a string. -/
def stringText (s : String) : String := String.ofList ('"' :: stringChars s.toList ++ ['"'])

/-! ## Reading -/

def isOpening (c : Char) : Bool := c = '(' || c = '[' || c = '\x7b'

def closingOf (c : Char) : Char := if c = '(' then ')' else if c = '[' then ']' else '\x7d'

def isClosing (c : Char) : Bool := c = ')' || c = ']' || c = '\x7d'

def isPunctuation (c : Char) : Bool := "~!@#$%^&*-=+|;:,<.>/?".toList.contains c

/-- Blanks and the marks of writing direction separate tokens. -/
def isSpace (c : Char) : Bool := c = '\u200e' || c = '\u200f' || Text.isBlank c

/-- The rest behind a block comment, which nests; `depth` comments are open around it. -/
def skipBlockComment (depth : Nat) : List Char → Option (List Char)
  | [] => none
  | '*' :: '/' :: cs => if depth = 0 then some cs else skipBlockComment (depth - 1) cs
  | '/' :: '*' :: cs => skipBlockComment (depth + 1) cs
  | _ :: cs => skipBlockComment depth cs

def untilLineEnd (cs : List Char) : List Char × List Char :=
  (cs.takeWhile (· ≠ '\n'), cs.dropWhile (· ≠ '\n'))

/-- The attribute that a documentation comment stands for. -/
def documentation (isInner : Bool) (text : List Char) : List Token :=
  [symbol "#"] ++ (if isInner then [symbol "!"] else [])
    ++ [symbol "[", word "doc", symbol "=", literal (stringText (String.ofList text)), symbol "]"]

/-- The tokens of a comment and the rest behind it, at a text that starts with one. -/
def comment? : List Char → Option (List Token × List Char)
  | '/' :: '/' :: '!' :: cs =>
    let (text, rest) := untilLineEnd cs
    some (documentation true text, rest)
  | '/' :: '/' :: '/' :: '/' :: cs => some ([], (untilLineEnd cs).2)
  | '/' :: '/' :: '/' :: cs =>
    let (text, rest) := untilLineEnd cs
    some (documentation false text, rest)
  | '/' :: '/' :: cs => some ([], (untilLineEnd cs).2)
  | '/' :: '*' :: '!' :: cs => do
    let rest ← skipBlockComment 0 cs
    return (documentation true (cs.take (cs.length - rest.length - 2)), rest)
  | '/' :: '*' :: '*' :: c :: cs => do
    if c = '*' ∨ c = '/' then return ([], ← skipBlockComment 0 ('*' :: c :: cs))
    let rest ← skipBlockComment 0 (c :: cs)
    return (documentation false ((c :: cs).take (cs.length - rest.length - 1)), rest)
  | '/' :: '*' :: cs => do return ([], ← skipBlockComment 0 cs)
  | _ => none

/-- The characters of a string up to its closing quote, and the rest behind that. -/
def spanString : List Char → Option (List Char × List Char)
  | [] => none
  | '"' :: cs => some (['"'], cs)
  | '\\' :: c :: cs => (spanString cs).map fun (text, rest) => ('\\' :: c :: text, rest)
  | c :: cs => (spanString cs).map fun (text, rest) => (c :: text, rest)

def isNumberPart (c : Char) : Bool := c.isAlphanum || c = '_'

/-- A number: digits and letters, and a fraction behind a point that a digit follows. -/
def spanNumber (cs : List Char) : List Char × List Char :=
  let whole := cs.takeWhile isNumberPart
  match cs.dropWhile isNumberPart with
  | '.' :: d :: rest =>
    if d.isDigit then
      (whole ++ '.' :: (d :: rest).takeWhile isNumberPart, (d :: rest).dropWhile isNumberPart)
    else (whole, '.' :: d :: rest)
  | rest => (whole, rest)

/-- A name at the head of a text. -/
def spanName (cs : List Char) : String × List Char :=
  (String.ofList (cs.takeWhile Text.isIdentifierContinue), cs.dropWhile Text.isIdentifierContinue)

/-- What a single quote starts: a character literal, or else a lifetime. -/
def quoteToken? : List Char → Option (Token × List Char)
  | '\\' :: 'u' :: '\x7b' :: cs =>
    match Text.splitFirst? '\x7d' cs with
    | some (digits, '\'' :: rest) =>
      some (.literal (String.ofList ("'\\u\x7b".toList ++ digits ++ "\x7d'".toList)), rest)
    | _ => none
  | '\\' :: 'x' :: a :: b :: '\'' :: cs =>
    some (.literal (String.ofList ['\'', '\\', 'x', a, b, '\'']), cs)
  | '\\' :: c :: '\'' :: cs => some (.literal (String.ofList ['\'', '\\', c, '\'']), cs)
  | c :: '\'' :: cs =>
    if c = '\'' ∨ c = '\\' then none else some (.literal (String.ofList ['\'', c, '\'']), cs)
  | c :: cs =>
    if Text.isIdentifierStart c then
      let (name, rest) := spanName (c :: cs)
      some (.lifetime name, rest)
    else none
  | [] => none

def rawIdent? (cs : List Char) : Option (Token × List Char) :=
  let (name, rest) := spanName cs
  if Text.isIdentifier name.toList ∧ name ∉ pathKeywords then some (.ident ⟨name, true⟩, rest)
  else none

/-- The token at the head of a text, and the rest. -/
def head? : List Char → Option (Token × List Char)
  | [] => none
  | '"' :: cs => (spanString cs).map fun (text, rest) => (.literal (String.ofList ('"' :: text)), rest)
  | 'b' :: '"' :: cs =>
    (spanString cs).map fun (text, rest) => (.literal (String.ofList ('b' :: '"' :: text)), rest)
  | '\'' :: cs => quoteToken? cs
  | 'r' :: '#' :: cs => rawIdent? cs
  | ':' :: ':' :: cs => some (.symbol "::", cs)
  | '-' :: '>' :: cs => some (.symbol "->", cs)
  | '=' :: '>' :: cs => some (.symbol "=>", cs)
  | c :: cs =>
    if c.isDigit then
      let (text, rest) := spanNumber (c :: cs)
      some (.literal (String.ofList text), rest)
    else if Text.isIdentifierStart c then
      let (name, rest) := spanName (c :: cs)
      some (.ident (.plain name), rest)
    else if isOpening c || isClosing c || isPunctuation c then
      some (.symbol (String.singleton c), cs)
    else none

/-- The brackets awaited behind a token, the innermost first; a bracket that closes another one
than awaited makes the text unreadable. -/
def awaited? (brackets : List Char) : Token → Option (List Char)
  | symbol s =>
    match s.toList with
    | [c] =>
      if isOpening c then some (closingOf c :: brackets)
      else if isClosing c then if brackets.head? = some c then some brackets.tail else none
      else some brackets
    | _ => some brackets
  | _ => some brackets

/-- The tokens of a text in which `brackets` are to be closed. -/
def read : Nat → List Char → List Char → Option (List Token)
  | 0, _, _ => none
  | _ + 1, brackets, [] => if brackets = [] then some [] else none
  | fuel + 1, brackets, c :: cs =>
    if isSpace c then read fuel brackets cs
    else match comment? (c :: cs) with
    | some (tokens, rest) => do return tokens ++ (← read fuel brackets rest)
    | none => do
      let (token, rest) ← head? (c :: cs)
      return token :: (← read fuel (← awaited? brackets token) rest)

/-- The tokens of a text. Every step takes a character, which bounds their number. -/
def ofText? (text : String) : Option (List Token) := read (text.length + 1) [] text.toList

end Token

end Graphwright.Rust
