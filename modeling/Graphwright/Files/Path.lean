import Graphwright.Text.Split

/-!
Paths of files. Two spellings are the same path if they have the same parts: repeated slashes, and
single points that do not come first, count for nothing.
-/
namespace Graphwright.Path

inductive Part
  | root
  | here
  | up
  | name (text : String)
  deriving DecidableEq, Repr

/-- The texts between slashes. -/
def pieces (path : String) : List String :=
  (Text.splitWhere (· = '/') path.toList).map String.ofList

/-- The parts that texts behind the first slash form. -/
def innerParts (ps : List String) : List Part :=
  ps.filterMap fun p =>
    if p = "" ∨ p = "." then none else if p = ".." then some .up else some (.name p)

def parts (path : String) : List Part :=
  match pieces path with
  | [] => []
  | first :: rest =>
    if first = "" then
      if rest = [] then [] else .root :: innerParts rest
    else if first = "." then .here :: innerParts rest
    else innerParts (first :: rest)

/-- Whether a path says that it is one of a directory. -/
def isFolderSpelling (path : String) : Bool :=
  match (pieces path).getLast? with
  | some last => last = "" || last = "." || last = ".."
  | none => true

def isAbsolute (path : String) : Bool := path.toList.head? = some '/'

/-- The path that `path` is, seen from `base`. -/
def join (base path : String) : String :=
  if isAbsolute path then path
  else if base = "" ∨ base.toList.getLast? = some '/' then base ++ path
  else base ++ "/" ++ path

/-- The path below a root that its names lead to. -/
def ofNames (names : List String) : String := names.foldl join ""

/-- The pieces without those at the end that count for nothing. -/
def trimPieces (ps : List String) : List String :=
  let trimmed := (ps.reverse.dropWhile fun p => p = "" ∨ p = ".").reverse
  if trimmed = [] then ps.take 1 else trimmed

/-- The text of the path of the directory that holds what `path` names. -/
def parent? (path : String) : Option String :=
  if (parts path).all (· = .root) then none
  else
    let outer := trimPieces (trimPieces (pieces path)).dropLast
    some (if outer = [""] then "/" else "/".intercalate outer)

end Graphwright.Path
