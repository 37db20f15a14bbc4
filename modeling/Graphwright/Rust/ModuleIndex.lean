import Graphwright.Rust.Rendering

/-!
Module indexes. Every directory of generated files has one: it declares the directories in it, and
for each file in it the module, from which it exports the item by name. The directories stand in a
table, in order of their paths, into which items are entered one after another.
-/
namespace Graphwright.Rust

/-- A directory: the names of the directories in it, and the items in it by module name. -/
@[ext]
structure Folder where
  path : List String
  children : List String
  items : List (String × String)
  deriving Repr

namespace Folder

def empty (path : List String) : Folder := ⟨path, [], []⟩

/-- Lists an item under its module name, in place of another one of that name. -/
def addItem (item : Code.Model) (folder : Folder) : Folder :=
  { folder with items := Entries.putSorted (moduleName item.name) item.name folder.items }

def addChild (child : String) (folder : Folder) : Folder :=
  { folder with children := Entries.insertName child folder.children }

/-- The order of folders: a folder stands before those in it. -/
def before : List String → List String → Bool
  | [], [] => false
  | [], _ :: _ => true
  | _ :: _, [] => false
  | a :: as, b :: bs => a < b || a = b && before as bs

/-- Changes the folder at a path. If the table has none there, it gets an empty one first. -/
def change (path : List String) (f : Folder → Folder) : List Folder → List Folder
  | [] => [f (empty path)]
  | folder :: folders =>
    if folder.path = path then f folder :: folders
    else if before path folder.path then f (empty path) :: folder :: folders
    else folder :: change path f folders

/-- Lists each folder on the way on from `outer` in the one that it stands in. -/
def addWay (outer : List String) : List String → List Folder → List Folder
  | [], folders => folders
  | child :: way, folders =>
    addWay (outer ++ [child]) way (change outer (addChild child) folders)

/-- Enters an item into its folder, and the folders on the way to it into those around them. -/
def enter (folders : List Folder) (item : Code.Model) : List Folder :=
  addWay [] item.folder (change item.folder (addItem item) folders)

/-- All folders of a client, the root always among them. -/
def all (items : List Code.Model) : List Folder := items.foldl enter [empty []]

def title (home : Namespace) (folder : Folder) : String :=
  if folder.path = [] then "GraphQL client for `" ++ home.root ++ "`"
  else "`" ++ home.root ++ "::" ++ "::".intercalate folder.path ++ "`"

/-- The items of a folder's index. -/
def declarations (folder : Folder) : Except Failure (List Item) := do
  let children ← folder.children.mapM fun child => do return Item.module true (← Ident.escaped child)
  let exported ← folder.items.mapM fun (file, name) => do
    let file ← Ident.escaped file
    return [Item.module false file, .use true [file] [← Ident.escaped name]]
  return children ++ exported.flatten

def index (home : Namespace) (folder : Folder) : Except Failure GeneratedFile := do
  let file ← (titledFile (folder.title home) (← folder.declarations)).checked
  return {
    path := Path.join (Path.ofNames folder.path) "mod.rs"
    content := file.source
    origin := "module index" }

end Folder

/-- The module indexes of a client, the outermost first. -/
def renderModules (home : Namespace) (items : List Code.Model) :
    Except Failure (List GeneratedFile) :=
  (Folder.all items).mapM (·.index home)

end Graphwright.Rust
