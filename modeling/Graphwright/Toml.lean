import Graphwright.Entries
import Graphwright.Text.CodePoints

/-!
The documents of TOML that hold texts and tables only. A key is given once, a table is opened by one
header, and a table that keys or braces have made is not extended by another form. Any other value
makes a document unreadable.
-/
namespace Graphwright

/-- How a table came about, which decides how it may be extended. -/
inductive Toml.Origin
  /-- By the header of a table in it. -/
  | implicit
  | header
  /-- By a key with points. -/
  | dotted
  | inline
  deriving DecidableEq, Repr

inductive Toml
  | str (s : String)
  | table (origin : Toml.Origin) (entries : List (String × Toml))
  deriving Repr

namespace Toml

/-! ## Characters -/

def isBlank (c : Char) : Bool := c = ' ' || c = '\t'

/-- A character that may stand in a comment or a text. -/
def isPlain (c : Char) : Bool := c = '\t' || 0x20 ≤ c.toNat && c.toNat ≠ 0x7f

def isBare (c : Char) : Bool := c.isAlphanum || c = '_' || c = '-'

def skipBlanks (cs : List Char) : List Char := cs.dropWhile isBlank

/-- The rest behind a line end, which the end of the document stands for. -/
def lineEnd? : List Char → Option (List Char)
  | [] => some []
  | '\n' :: cs => some cs
  | '\r' :: '\n' :: cs => some cs
  | _ => none

/-- The rest behind a line on which nothing but a comment is left. -/
def finishLine? (cs : List Char) : Option (List Char) :=
  match skipBlanks cs with
  | '#' :: rest => lineEnd? (rest.dropWhile isPlain)
  | rest => lineEnd? rest

/-! ## Texts -/

def shortEscape? : Char → Option Char
  | 'b' => some '\x08'
  | 't' => some '\t'
  | 'n' => some '\n'
  | 'f' => some '\x0c'
  | 'r' => some '\r'
  | '"' => some '"'
  | '\\' => some '\\'
  | _ => none

/-- The character with a number in hexadecimal digits, if there is one. -/
def numbered? (digits : List Char) : Option Char := do
  let values ← digits.mapM Text.hexDigit?
  let n := values.foldl (fun n d => 16 * n + d) 0
  if n.isValidChar then some (Char.ofNat n) else none

/-- The text up to a closing double quote, and the rest. -/
def basicText? : List Char → Option (List Char × List Char)
  | [] => none
  | '"' :: cs => some ([], cs)
  | '\\' :: 'u' :: a :: b :: c :: d :: cs => do
    let e ← numbered? [a, b, c, d]
    let (text, rest) ← basicText? cs
    return (e :: text, rest)
  | '\\' :: 'U' :: a :: b :: c :: d :: e :: f :: g :: h :: cs => do
    let e ← numbered? [a, b, c, d, e, f, g, h]
    let (text, rest) ← basicText? cs
    return (e :: text, rest)
  | '\\' :: c :: cs => do
    let e ← shortEscape? c
    let (text, rest) ← basicText? cs
    return (e :: text, rest)
  | c :: cs =>
    if isPlain c ∧ c ≠ '\\' then do
      let (text, rest) ← basicText? cs
      return (c :: text, rest)
    else none

/-- Whether a line ends behind blanks. -/
def startsLineEnd (cs : List Char) : Bool :=
  match skipBlanks cs with
  | '\n' :: _ => true
  | '\r' :: '\n' :: _ => true
  | _ => false

/-- The text up to three double quotes, and the rest. A backslash at the end of a line joins the
text that follows the next blanks and line ends, which `isJoining` skips. -/
def longText? (isJoining : Bool) : List Char → Option (List Char × List Char)
  | [] => none
  | '"' :: '"' :: '"' :: '"' :: '"' :: cs => some (['"', '"'], cs)
  | '"' :: '"' :: '"' :: '"' :: cs => some (['"'], cs)
  | '"' :: '"' :: '"' :: cs => some ([], cs)
  | '\\' :: 'u' :: a :: b :: c :: d :: cs => do
    let e ← numbered? [a, b, c, d]
    let (text, rest) ← longText? false cs
    return (e :: text, rest)
  | '\\' :: 'U' :: a :: b :: c :: d :: e :: f :: g :: h :: cs => do
    let e ← numbered? [a, b, c, d, e, f, g, h]
    let (text, rest) ← longText? false cs
    return (e :: text, rest)
  | '\\' :: c :: cs =>
    if startsLineEnd (c :: cs) then longText? true (c :: cs)
    else do
      let e ← shortEscape? c
      let (text, rest) ← longText? false cs
      return (e :: text, rest)
  | '\r' :: '\n' :: cs =>
    if isJoining then longText? true cs
    else do
      let (text, rest) ← longText? false cs
      return ('\n' :: text, rest)
  | c :: cs =>
    if isJoining ∧ (isBlank c ∨ c = '\n') then longText? true cs
    else if (isPlain c ∧ c ≠ '\\') ∨ c = '\n' then do
      let (text, rest) ← longText? false cs
      return (c :: text, rest)
    else none

/-- The text up to a closing single quote, and the rest. -/
def literalText? : List Char → Option (List Char × List Char)
  | [] => none
  | '\'' :: cs => some ([], cs)
  | c :: cs =>
    if isPlain c then do
      let (text, rest) ← literalText? cs
      return (c :: text, rest)
    else none

/-- The text up to three single quotes, and the rest. -/
def longLiteralText? : List Char → Option (List Char × List Char)
  | [] => none
  | '\'' :: '\'' :: '\'' :: '\'' :: '\'' :: cs => some (['\'', '\''], cs)
  | '\'' :: '\'' :: '\'' :: '\'' :: cs => some (['\''], cs)
  | '\'' :: '\'' :: '\'' :: cs => some ([], cs)
  | '\r' :: '\n' :: cs => do
    let (text, rest) ← longLiteralText? cs
    return ('\n' :: text, rest)
  | c :: cs =>
    if isPlain c ∨ c = '\n' then do
      let (text, rest) ← longLiteralText? cs
      return (c :: text, rest)
    else none

/-- A line end directly behind the opening quotes is no part of a text. -/
def dropLineEnd : List Char → List Char
  | '\n' :: cs => cs
  | '\r' :: '\n' :: cs => cs
  | cs => cs

/-- The text that starts with the quotes at the head. -/
def quoted? : List Char → Option (List Char × List Char)
  | '"' :: '"' :: '"' :: cs => longText? false (dropLineEnd cs)
  | '\'' :: '\'' :: '\'' :: cs => longLiteralText? (dropLineEnd cs)
  | '"' :: cs => basicText? cs
  | '\'' :: cs => literalText? cs
  | _ => none

/-! ## Keys and values -/

/-- A key, which is bare or a text on one line. -/
def key? : List Char → Option (String × List Char)
  | '"' :: cs => (basicText? cs).map fun (text, rest) => (String.ofList text, rest)
  | '\'' :: cs => (literalText? cs).map fun (text, rest) => (String.ofList text, rest)
  | cs =>
    let name := cs.takeWhile isBare
    if name = [] then none else some (String.ofList name, cs.dropWhile isBare)

/-- Keys that points join, and the rest behind blanks. Every key takes a character. -/
def keys? : Nat → List Char → Option (List String × List Char)
  | 0, _ => none
  | n + 1, cs => do
    let (key, rest) ← key? (skipBlanks cs)
    match skipBlanks rest with
    | '.' :: rest => do
      let (more, rest) ← keys? n rest
      return (key :: more, rest)
    | rest => return ([key], rest)

/-- Adds a value under keys; tables are made on the way, or found made so. -/
def insert? (value : Toml) : List String → List (String × Toml) → Option (List (String × Toml))
  | [], _ => none
  | [key], entries =>
    if (Entries.get? key entries).isSome then none else some (Entries.put key value entries)
  | key :: keys, entries =>
    match Entries.get? key entries with
    | none => do return Entries.put key (table .dotted (← insert? value keys [])) entries
    | some (table .dotted inner) => do
      return Entries.put key (table .dotted (← insert? value keys inner)) entries
    | some _ => none

mutual

/-- A value at the head of a text. -/
def value? : Nat → List Char → Option (Toml × List Char)
  | 0, _ => none
  | n + 1, cs =>
    match cs with
    | '\x7b' :: rest =>
      match skipBlanks rest with
      | '\x7d' :: rest => some (table .inline [], rest)
      | rest => inlineEntries? n [] rest
    | cs => (quoted? cs).map fun (s, rest) => (str (String.ofList s), rest)

/-- The entries of a table in braces, behind those in `entries`. -/
def inlineEntries? : Nat → List (String × Toml) → List Char → Option (Toml × List Char)
  | 0, _, _ => none
  | n + 1, entries, cs => do
    let (keys, rest) ← keys? (cs.length + 1) cs
    match rest with
    | '=' :: rest => do
      let (value, rest) ← value? n (skipBlanks rest)
      let entries ← insert? value keys entries
      match skipBlanks rest with
      | ',' :: rest => inlineEntries? n entries rest
      | '\x7d' :: rest => return (table .inline entries, rest)
      | _ => none
    | _ => none

end

/-! ## Documents -/

/-- Opens the table under keys by a header. -/
def openTable? : List String → List (String × Toml) → Option (List (String × Toml))
  | [], _ => none
  | [key], entries =>
    match Entries.get? key entries with
    | none => some (Entries.put key (table .header []) entries)
    | some (table .implicit inner) => some (Entries.put key (table .header inner) entries)
    | some _ => none
  | key :: keys, entries =>
    match Entries.get? key entries with
    | none => do return Entries.put key (table .implicit (← openTable? keys [])) entries
    | some (table .inline _) => none
    | some (table origin inner) => do
      return Entries.put key (table origin (← openTable? keys inner)) entries
    | some (str _) => none

/-- Adds a value under keys of the table that `header` opened. -/
def insertBelow? (value : Toml) (keys : List String) :
    List String → List (String × Toml) → Option (List (String × Toml))
  | [], entries => insert? value keys entries
  | key :: header, entries =>
    match Entries.get? key entries with
    | some (table origin inner) => do
      return Entries.put key (table origin (← insertBelow? value keys header inner)) entries
    | _ => none

/-- Reads lines under a header; every line takes a character. -/
def lines? : Nat → List String → List (String × Toml) → List Char → Option (List (String × Toml))
  | 0, _, _, _ => none
  | _ + 1, _, entries, [] => some entries
  | n + 1, header, entries, cs =>
    match finishLine? cs with
    | some rest => lines? n header entries rest
    | none =>
      match skipBlanks cs with
      | '[' :: rest => do
        let (keys, rest) ← keys? (rest.length + 1) rest
        match rest with
        | ']' :: rest => do
          let entries ← openTable? keys entries
          lines? n keys entries (← finishLine? rest)
        | _ => none
      | line => do
        let (keys, rest) ← keys? (line.length + 1) line
        match rest with
        | '=' :: rest => do
          let (value, rest) ← value? (rest.length + 1) (skipBlanks rest)
          let entries ← insertBelow? value keys header entries
          lines? n header entries (← finishLine? rest)
        | _ => none

/-- The entries of a document; a mark of the byte order may stand before it. -/
def ofText? (text : String) : Option (List (String × Toml)) :=
  let cs := match text.toList with
    | '\ufeff' :: cs => cs
    | cs => cs
  lines? (cs.length + 1) [] [] cs

end Toml

end Graphwright
