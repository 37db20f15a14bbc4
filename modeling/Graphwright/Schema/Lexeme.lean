import Graphwright.Number.Binary64
import Graphwright.Text.CodePoints
import Graphwright.Text.Lines

/-!
The tokens of a schema document, each with the position at which it starts. Blanks, commas and
comments are skipped after every token. Text that forms no token is an `invalid` one, behind which
nothing is read.
-/
namespace Graphwright.Schema

/-- A place in a document; lines and columns start at 1. -/
structure Position where
  line : Nat := 1
  column : Nat := 1
  deriving DecidableEq, Repr

namespace Position

def right (p : Position) (n : Nat) : Position := { p with column := p.column + n }

def nextLine (p : Position) : Position := ⟨p.line + 1, 1⟩

/-- The place behind a token: a line feed inside it starts a line. -/
def after (p : Position) (cs : List Char) : Position :=
  cs.foldl (fun p c => if c = '\n' then p.nextLine else p.right 1) p

end Position

inductive Token
  | punctuator (c : Char)
  | ellipsis
  | name (text : String)
  | int (value : Int)
  | float (value : Binary64)
  | string (value : String)
  | invalid
  | finish
  deriving DecidableEq, Repr

structure Lexeme where
  start : Position
  token : Token
  deriving DecidableEq, Repr

namespace Lexeme

/-- Skips what separates tokens. A comment ends with CR or LF, and either starts a line; its own
characters do not move the column. -/
def skip (inComment : Bool) (p : Position) : List Char → Position × List Char
  | [] => (p, [])
  | c :: cs =>
    if inComment then
      if c = '\r' ∨ c = '\n' then skip false p.nextLine cs else skip true p cs
    else if c = ' ' ∨ c = ',' then skip false (p.right 1) cs
    else if c = '\t' then skip false (p.right 8) cs
    else if c = '\r' ∨ c = '\ufeff' then skip false p cs
    else if c = '\n' then skip false p.nextLine cs
    else if c = '#' then skip true p cs
    else (p, c :: cs)

def isNameStart (c : Char) : Bool := c.isAlpha || c = '_'

def isNameContinue (c : Char) : Bool := c.isAlphanum || c = '_'

def isOpening (c : Char) : Bool := c = '(' || c = '[' || c = '\x7b'

def isClosing (c : Char) : Bool := c = ')' || c = ']' || c = '\x7d'

def isPunctuator (c : Char) : Bool :=
  ['!', '$', ':', '=', '@', '|', '&'].contains c || isOpening c || isClosing c

/-- A number runs up to a separator or a punctuator. -/
def endsNumber (c : Char) : Bool :=
  [' ', '\n', '\r', '\t', ',', '#'].contains c || isPunctuator c

def value (digits : List Char) : Nat :=
  digits.foldl (fun n d => 10 * n + (d.toNat - '0'.toNat)) 0

/-- An optional minus sign and digits, a zero leading only when it is alone. -/
def int? (cs : List Char) : Option (Bool × Nat) :=
  let (negative, ds) := match cs with
    | '-' :: ds => (true, ds)
    | ds => (false, ds)
  if ds = [] ∨ !ds.all Char.isDigit ∨ ds.length ≠ 1 ∧ ds.head? = some '0' then none
  else some (negative, value ds)

/-- An exponent starts with a sign or one of the digits `1` to `8`. -/
def exponent? : List Char → Option Int
  | [] => none
  | c :: cs =>
    if !cs.all Char.isDigit then none
    else if c = '+' then if cs = [] then none else some (value cs)
    else if c = '-' then if cs = [] then none else some (-(value cs : Int))
    else if '1' ≤ c ∧ c ≤ '8' then some (value (c :: cs))
    else none

def isExponentMark (c : Char) : Bool := c = 'e' || c = 'E'

/-- Cuts at the last character that satisfies `p`. -/
def splitLast? (p : Char → Bool) (cs : List Char) : Option (List Char × List Char) :=
  let after := (cs.reverse.takeWhile (!p ·)).reverse
  match cs.reverse.dropWhile (!p ·) with
  | [] => none
  | _ :: before => some (before.reverse, after)

/-- The number that a run of characters writes. Integers have 64 bits. -/
def number? (cs : List Char) : Option Token :=
  match splitLast? isExponentMark cs, splitLast? (· = '.') cs with
  | none, none => do
    let (negative, n) ← int? cs
    let bound := Nat.pow 2 63
    if n < bound ∨ negative ∧ n = bound then some (.int (if negative then -n else n)) else none
  | exponent, _ => do
    let (mantissa, e) ← match exponent with
      | some (mantissa, e) => do some (mantissa, ← exponent? e)
      | none => some (cs, 0)
    let (whole, fraction) ← match splitLast? (· = '.') mantissa with
      | some (whole, fraction) =>
        if fraction = [] ∨ !fraction.all Char.isDigit then none else some (whole, fraction)
      | none => some (mantissa, [])
    let (negative, n) ← int? whole
    some (.float (.ofDecimal negative (n * Nat.pow 10 fraction.length + value fraction)
      (e - fraction.length)))

/-- The characters of a quoted string up to its closing quote, and the rest behind that. -/
def spanQuoted : List Char → Option (List Char × List Char)
  | [] => none
  | '"' :: cs => some ([], cs)
  | '\n' :: _ => none
  | '\\' :: '\n' :: _ => none
  | '\\' :: c :: cs => (spanQuoted cs).map fun (text, rest) => ('\\' :: c :: text, rest)
  | c :: cs => (spanQuoted cs).map fun (text, rest) => (c :: text, rest)

/-- Replaces the escapes of a quoted string. `\b` stands for U+0010. -/
def unescape : List Char → Option (List Char)
  | [] => some []
  | '\\' :: 'u' :: a :: b :: c :: d :: cs => do
    let a ← Text.hexDigit? a
    let b ← Text.hexDigit? b
    let c ← Text.hexDigit? c
    let d ← Text.hexDigit? d
    let n := ((a * 16 + b) * 16 + c) * 16 + d
    if 0xd800 ≤ n ∧ n < 0xe000 then none else (unescape cs).map (Char.ofNat n :: ·)
  | '\\' :: c :: cs => do
    let d ← match c with
      | '"' => some '"'
      | '\\' => some '\\'
      | '/' => some '/'
      | 'b' => some '\x10'
      | 'f' => some '\x0c'
      | 'n' => some '\n'
      | 'r' => some '\r'
      | 't' => some '\t'
      | _ => none
    (unescape cs).map (d :: ·)
  | '\\' :: [] => none
  | c :: cs => (unescape cs).map (c :: ·)

/-- The characters of a block string up to three quotes that no backslash precedes, and the rest
behind those. -/
def spanBlock : List Char → Option (List Char × List Char)
  | [] => none
  | '\\' :: '"' :: '"' :: '"' :: cs =>
    (spanBlock cs).map fun (text, rest) => (['\\', '"', '"', '"'] ++ text, rest)
  | '"' :: '"' :: '"' :: cs => some ([], cs)
  | c :: cs => (spanBlock cs).map fun (text, rest) => (c :: text, rest)

/-- The size of the leading blanks in bytes. -/
def indentation (line : List Char) : Nat :=
  (line.takeWhile Text.isBlank).foldl (fun n c => n + c.utf8Size) 0

/-- Removes `n` bytes from a line that is not shorter. -/
def dropBytes (n : Nat) : List Char → List Char
  | [] => []
  | c :: cs => if n = 0 then c :: cs else dropBytes (n - c.utf8Size) cs

def byteLength (line : List Char) : Nat := line.foldl (fun n c => n + c.utf8Size) 0

def unescapeBlock : List Char → List Char
  | '\\' :: '"' :: '"' :: '"' :: cs => ['"', '"', '"'] ++ unescapeBlock cs
  | c :: cs => c :: unescapeBlock cs
  | [] => []

/-- The text of a block string: without blank lines at both ends, and without the indentation that
the lines after the first have in common. -/
def blockValue (cs : List Char) : List Char :=
  let isBlankLine (line : List Char) : Bool := line.all Text.isBlank
  let lines := Text.lines cs
  let indents := (lines.drop 1).filterMap fun line =>
    if isBlankLine line then none else some (indentation line)
  let dedent (line : List Char) : List Char := match indents.min? with
    | some n => if n ≤ byteLength line then dropBytes n line else line
    | none => line
  let lines := match lines with
    | [] => []
    | first :: rest => first :: rest.map dedent
  let trimmed := ((lines.dropWhile isBlankLine).reverse.dropWhile isBlankLine).reverse
  ['\n'].intercalate (trimmed.map unescapeBlock)

/-- The token at the head of a text: its value, its characters and the rest. -/
def token? : List Char → Option (Token × List Char × List Char)
  | [] => none
  | '"' :: '"' :: '"' :: cs => do
    let (text, rest) ← spanBlock cs
    let quotes := ['"', '"', '"']
    some (.string (String.ofList (blockValue text)), quotes ++ text ++ quotes, rest)
  | '"' :: cs => do
    let (text, rest) ← spanQuoted cs
    let value ← unescape text
    some (.string (String.ofList value), '"' :: text ++ ['"'], rest)
  | '.' :: '.' :: '.' :: cs => some (.ellipsis, ['.', '.', '.'], cs)
  | c :: cs =>
    if isPunctuator c then some (.punctuator c, [c], cs)
    else if isNameStart c then
      let text := c :: cs.takeWhile isNameContinue
      some (.name (String.ofList text), text, cs.dropWhile isNameContinue)
    else if c = '-' ∨ c.isDigit then do
      let text := c :: cs.takeWhile (!endsNumber ·)
      let token ← number? text
      some (token, text, cs.dropWhile (!endsNumber ·))
    else none

/-- How many brackets may be open at once. -/
def maxDepth : Nat := 50

/-- The lexemes of a text that starts at `p` inside `depth` brackets. -/
def read : Nat → Nat → Position → List Char → List Lexeme
  | 0, _, p, _ => [⟨p, .invalid⟩]
  | _ + 1, _, p, [] => [⟨p, .finish⟩]
  | fuel + 1, depth, p, cs =>
    match token? cs with
    | none => [⟨p, .invalid⟩]
    | some (token, text, rest) =>
      let opens := match token with
        | .punctuator c => isOpening c
        | _ => false
      let closes := match token with
        | .punctuator c => isClosing c
        | _ => false
      if opens && maxDepth ≤ depth then [⟨p, .invalid⟩]
      else
        let depth := if opens then depth + 1 else if closes then depth - 1 else depth
        let (next, rest) := skip false (p.after text) rest
        ⟨p, token⟩ :: read fuel depth next rest

/-- The lexemes of a document, the last being `finish` or `invalid`. Every token takes a character,
which bounds the recursion. -/
def ofText (text : String) : List Lexeme :=
  let (start, cs) := skip false {} text.toList
  read (cs.length + 1) 0 start cs

end Lexeme

end Graphwright.Schema
