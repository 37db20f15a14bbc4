import Graphwright.Entries
import Graphwright.Files.Path

/-!
A directory tree: what stands at which place below a root. Reading and writing fail only where a
directory is missing or a file and a directory are in each other's way.
-/
namespace Graphwright

/-- The names that lead from the root to a place. -/
abbrev Place := List String

inductive Node
  | folder
  | file (content : String)
  deriving DecidableEq, Repr

structure Tree where
  entries : List (Place × Node)
  /-- The place from which paths start, if the tree is the whole file system. Otherwise they start
  from its root, and what lies outside is not there. -/
  working : Option Place := none
  deriving Repr

namespace Tree

def empty : Tree := { entries := [] }

/-- What stands at a place; the root is a directory. -/
def node? (tree : Tree) (place : Place) : Option Node :=
  if place = [] then some .folder else tree.entries.lookup place

def putEntry (place : Place) (node : Node) : List (Place × Node) → List (Place × Node)
  | [] => [(place, node)]
  | (p, old) :: rest => if p = place then (p, node) :: rest else (p, old) :: putEntry place node rest

def put (tree : Tree) (place : Place) (node : Node) : Tree :=
  { tree with entries := putEntry place node tree.entries }

def remove (tree : Tree) (place : Place) : Tree :=
  { tree with entries := tree.entries.filter (·.1 ≠ place) }

/-- The place from which paths start. -/
def start (tree : Tree) : Place := tree.working.getD []

/-- The root of the file system, if the tree is all of it. It is its own parent. -/
def top? (tree : Tree) : Option Place := tree.working.map fun _ => []

/-- The directory that a part of a path leads to. -/
def enter? (tree : Tree) (here : Place) : Path.Part → Option Place
  | .root => tree.top?
  | .here => some here
  | .up => if here = [] then tree.top? else some here.dropLast
  | .name n => if tree.node? (here ++ [n]) = some .folder then some (here ++ [n]) else none

def folderAt? (tree : Tree) (parts : List Path.Part) : Option Place :=
  parts.foldlM tree.enter? tree.start

/-- The name of the file that a path can name. -/
def fileName? (path : String) : Option String :=
  if Path.isFolderSpelling path then none
  else match (Path.parts path).getLast? with
  | some (.name n) => some n
  | _ => none

/-- Whether a path leads to anything. -/
def contains (tree : Tree) (path : String) : Bool :=
  let parts := Path.parts path
  path ≠ "" && match fileName? path with
    | some n => ((tree.folderAt? parts.dropLast).bind fun here => tree.node? (here ++ [n])).isSome
    | none => (tree.folderAt? parts).isSome

/-- The content of the file at a path. -/
def read? (tree : Tree) (path : String) : Option String := do
  let n ← fileName? path
  let here ← tree.folderAt? (Path.parts path).dropLast
  match tree.node? (here ++ [n]) with
  | some (.file content) => some content
  | _ => none

/-- Enters a directory, which is made if nothing stands at its place; `none` stands for a walk that
has failed. Directories that were made before stay. -/
def enterMaking : Tree × Option Place → Path.Part → Tree × Option Place
  | (tree, none), _ => (tree, none)
  | (tree, some here), .name n =>
    match tree.node? (here ++ [n]) with
    | none => (tree.put (here ++ [n]) .folder, some (here ++ [n]))
    | some .folder => (tree, some (here ++ [n]))
    | some (.file _) => (tree, none)
  | (tree, some here), part => (tree, tree.enter? here part)

def makeFolders (tree : Tree) (parts : List Path.Part) : Tree × Option Place :=
  parts.foldl enterMaking (tree, some tree.start)

/-- Writes a file and makes the directories it needs. What the file held before is given if all
went well. -/
def write (tree : Tree) (path content : String) : Tree × Option (Option String) :=
  match tree.makeFolders (Path.parts path).dropLast with
  | (tree, none) => (tree, none)
  | (tree, some here) =>
    match fileName? path with
    | none => (tree, none)
    | some n =>
      match tree.node? (here ++ [n]) with
      | some .folder => (tree, none)
      | some (.file old) => (tree.put (here ++ [n]) (.file content), some (some old))
      | none => (tree.put (here ++ [n]) (.file content), some none)

/-- Gives a file back what it held, or removes it if it was not there. -/
def restore (tree : Tree) (path : String) (previous : Option String) : Tree :=
  match fileName? path, tree.folderAt? (Path.parts path).dropLast with
  | some n, some here =>
    match previous with
    | some content => tree.put (here ++ [n]) (.file content)
    | none => tree.remove (here ++ [n])
  | _, _ => tree

/-- All paths in ascending order: those of files with their content, those of directories with a
slash behind them. -/
def listing (tree : Tree) : List (String × Option String) :=
  Entries.sorted <| tree.entries.map fun (place, node) =>
    let path := "/".intercalate place
    match node with
    | .folder => (path ++ "/", none)
    | .file content => (path, some content)

end Tree

end Graphwright
