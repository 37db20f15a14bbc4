import Graphwright.Rust.Token

/-!
The tokens of a file without what a formatter is free to choose: blanks, comments, a comma behind
the last of a list, and braces around the body of a closure or match arm. Two layouts of one file
have the same listing.
-/
namespace Graphwright.Rust

/-- A token, or what stands between two brackets. -/
inductive TokenTree
  | leaf (token : Token)
  | group (opening closing : Token) (body : List TokenTree)
  deriving Repr

namespace TokenTree

/-- Groups tokens; `outer` holds the groups that are open around `before`, which is reversed. -/
def groupInto (outer : List (Token × List TokenTree)) (before : List TokenTree) :
    List Token → List TokenTree
  | [] => before.reverse
  | .symbol s :: ts =>
    if s = "(" ∨ s = "[" ∨ s = "\x7b" then groupInto ((.symbol s, before) :: outer) [] ts
    else if s = ")" ∨ s = "]" ∨ s = "\x7d" then
      match outer with
      | (opening, above) :: outer =>
        groupInto outer (group opening (.symbol s) before.reverse :: above) ts
      | [] => groupInto [] (leaf (.symbol s) :: before) ts
    else groupInto outer (leaf (.symbol s) :: before) ts
  | t :: ts => groupInto outer (leaf t :: before) ts

def ofTokens (ts : List Token) : List TokenTree := groupInto [] [] ts

mutual

def flatten : TokenTree → List Token
  | leaf t => [t]
  | group opening closing body => opening :: flattenAll body ++ [closing]

def flattenAll : List TokenTree → List Token
  | [] => []
  | t :: ts => flatten t ++ flattenAll ts

end

/-- The comma behind the body of a match arm, if another arm follows without one. -/
def armComma (previous : Option Token) : List TokenTree → List TokenTree
  | [] => []
  | leaf (.symbol ",") :: _ => []
  | _ :: _ => if previous = some (.symbol "=>") then [leaf (.symbol ",")] else []

def leaf? : TokenTree → Option Token
  | leaf t => some t
  | group .. => none

mutual

/-- A tree without the braces around the bodies of closures and match arms; `previous` is the token
before it, and `following` are the trees behind it. -/
def stripBraces (previous : Option Token) (following : List TokenTree) : TokenTree → List TokenTree
  | leaf t => [leaf t]
  | group opening closing body =>
    if opening = .symbol "\x7b" ∧ (previous = some (.symbol "|") ∨ previous = some (.symbol "=>"))
    then stripBracesAll none body ++ armComma previous following
    else [group opening closing (stripBracesAll none body)]

def stripBracesAll (previous : Option Token) : List TokenTree → List TokenTree
  | [] => []
  | t :: ts => stripBraces previous ts t ++ stripBracesAll t.leaf? ts

end

end TokenTree

namespace Listing

/-- Whether no comma stands before a token. -/
def refusesComma (t : Token) : Bool :=
  t = .symbol ")" || t = .symbol "]" || t = .symbol "\x7d" || t = .symbol ">"

def dropCommas : List Token → List Token
  | [] => []
  | [t] => [t]
  | t :: u :: ts =>
    if t = .symbol "," ∧ refusesComma u then dropCommas (u :: ts) else t :: dropCommas (u :: ts)

def endsLine (t : Token) : Bool := t = .symbol ";" || t = .symbol "\x7b" || t = .symbol "\x7d"

/-- The tokens by line. -/
def split : List Token → List (List Token)
  | [] => []
  | t :: ts =>
    if endsLine t then [t] :: split ts
    else match split ts with
      | [] => [[t]]
      | line :: lines => (t :: line) :: lines

/-- The lines of a file's listing. -/
def ofTokens (ts : List Token) : List String :=
  let tokens := dropCommas
    (TokenTree.flattenAll (TokenTree.stripBracesAll none (TokenTree.ofTokens ts)))
  (split tokens).map fun line => " ".intercalate (line.map Token.text)

/-- The listing of a file's text. -/
def ofText? (text : String) : Option (List String) := (Token.ofText? text).map ofTokens

end Listing

end Graphwright.Rust
