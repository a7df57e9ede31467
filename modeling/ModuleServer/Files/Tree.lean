import ModuleServer.Files.Path
import ModuleServer.Text.Table
import ModuleServer.Text.Utf8

/-!
# File trees

The files that a server works on: a tree of folders and files, read and written by path. A path is
walked as it is written: each part needs a folder to start from, and two dots go back to the folder
before.

* `find` walks to a place, `readBytes` and `readText` read the file there; a folder counts as
  missing.
* `write`, `makeFolder` and `remove` change the tree at a path, and leave it alone where the path
  cannot be walked or something of the other kind is in the way. Folders that are missing on the way
  to what is written are made.
-/

namespace ModuleServer

open Text

/-- An entry of a file tree. -/
inductive FileTree where
  /-- A file. -/
  | file (content : Bytes)
  /-- A folder. -/
  | folder (entries : List (Text × FileTree))
deriving Repr, Inhabited

/-- Why a file cannot be read. -/
inductive ReadError where
  /-- There is no such file, or it is a folder. -/
  | notFound
  /-- The path goes on behind a file. -/
  | notAFolder
  /-- The path or a name in it is too long. -/
  | tooLong
  /-- The path holds the character of code zero. -/
  | zeroCharacter
  /-- The content is no text. -/
  | notText
deriving DecidableEq, Repr

namespace FileTree

/-! ## Limits -/

/-- Most bytes of a name. -/
def nameLimit : Nat := 255

/-- Most bytes of a path. -/
def pathLimit : Nat := 4095

/-- Why a path is none for any tree, if it is none. -/
def flaw? (path : Path) : Option ReadError :=
  if path.contains '\x00' then some .zeroCharacter
  else if pathLimit < byteSize path then some .tooLong
  else none

/-! ## Walking -/

/-- Where a walk through a tree stands. -/
structure Place where
  /-- The folders above, nearest first, each with the name of the entry that was gone into. -/
  above : List (Text × FileTree)
  /-- What is there. -/
  here : FileTree

/-- The place where a walk through a tree starts. -/
def top (tree : FileTree) : Place :=
  ⟨[], tree⟩

/-- The names of the entries that lead to a place. -/
def Place.names (p : Place) : List Text :=
  (p.above.map Prod.fst).reverse

/-- The place of the folder above. Above the root of all there is only itself. -/
def Place.up (p : Place) : Place :=
  match p.above with
  | [] => p
  | (_, outer) :: above => ⟨above, outer⟩

/-- The place that a part of a path leads to. -/
def Place.go (p : Place) (part : Text) : Except ReadError Place :=
  match p.here with
  | .file _ => .error .notAFolder
  | .folder entries =>
    match Path.step? part with
    | some .up => .ok p.up
    | some (.entry name) =>
      if nameLimit < byteSize name then .error .tooLong
      else
        match Table.get? name entries with
        | none => .error .notFound
        | some next => .ok ⟨(name, p.here) :: p.above, next⟩
    | _ => .ok p

/-- The place that parts of a path lead to. -/
def Place.walk (p : Place) : List Text → Except ReadError Place
  | [] => .ok p
  | part :: rest =>
    match p.go part with
    | .error e => .error e
    | .ok next => next.walk rest

theorem Place.walk_append (p : Place) (parts more : List Text) :
    p.walk (parts ++ more) = (p.walk parts).bind fun next => next.walk more := by
  induction parts generalizing p with
  | nil => rfl
  | cons part rest ih =>
    simp only [List.cons_append, Place.walk]
    cases p.go part with
    | error e => rfl
    | ok next => exact ih next

/-- The place that a path leads to. -/
def find (tree : FileTree) (path : Path) : Except ReadError Place :=
  match flaw? path with
  | some e => .error e
  | none => tree.top.walk path.parts

/-! ## Reading -/

/-- The bytes of the file at a path. -/
def readBytes (tree : FileTree) (path : Path) : Except ReadError Bytes :=
  match tree.find path with
  | .error e => .error e
  | .ok place =>
    match place.here with
    | .folder _ => .error .notFound
    | .file content => .ok content

/-- The text of the file at a path. -/
def readText (tree : FileTree) (path : Path) : Except ReadError Text :=
  match tree.readBytes path with
  | .error e => .error e
  | .ok content =>
    match Utf8.decode? content with
    | some t => .ok t
    | none => .error .notText

/-- Whether there is a file at a path. -/
def isFile (tree : FileTree) (path : Path) : Bool :=
  (tree.readBytes path).isOk

/-! ## Changing folders -/

/-- An entry with its entries changed, if it is a folder. -/
def mapEntries (f : Table FileTree → Table FileTree) : FileTree → FileTree
  | .file content => .file content
  | .folder entries => .folder (f entries)

/-- The tree with the entry changed that names lead to, if they lead to one. -/
def update (f : FileTree → FileTree) : List Text → FileTree → FileTree
  | [], tree => f tree
  | _ :: _, .file content => .file content
  | name :: rest, .folder entries =>
    match Table.get? name entries with
    | none => .folder entries
    | some child => .folder (Table.set name (update f rest child) entries)

/-- The tree with the folder changed that parts of a path lead to, if they lead to one. -/
def changeFolder (f : Table FileTree → Table FileTree) (parts : List Text)
    (tree : FileTree) : FileTree :=
  match tree.top.walk parts with
  | .error _ => tree
  | .ok place => update (mapEntries f) place.names tree

/-- Entries with a file under a name, unless there is a folder. -/
def putFile (name : Text) (content : Bytes) (entries : Table FileTree) : Table FileTree :=
  if nameLimit < byteSize name then entries
  else
    match Table.get? name entries with
    | some (.folder _) => entries
    | _ => Table.set name (.file content) entries

/-- Entries with a folder under a name, unless there is something. -/
def putFolder (name : Text) (entries : Table FileTree) : Table FileTree :=
  if nameLimit < byteSize name then entries
  else
    match Table.get? name entries with
    | some _ => entries
    | none => Table.set name (.folder []) entries

/-! ## Changing at a path -/

/-- The tree with a folder where parts of a path lead, if all but the last lead to one. -/
def addFolder (parts : List Text) (tree : FileTree) : FileTree :=
  match Path.ending? parts with
  | some (before, name) => changeFolder (putFolder name) before tree
  | none => tree

/-- The tree with the folders that parts of a path lead through, `before` being the parts that have
been gone through. -/
def addFolders (before : List Text) : List Text → FileTree → FileTree
  | [], tree => tree
  | part :: rest, tree =>
    -- behind a part that leads to no folder nothing can be made
    addFolders (before ++ [part]) rest (addFolder (before ++ [part]) tree)

/-- The tree with the folders that a path leads through. -/
def makeWay (tree : FileTree) (path : Path) : FileTree :=
  match flaw? path with
  | some _ => tree
  | none => addFolders [] path.parts tree

/-- The tree with a file written at a path. -/
def write (tree : FileTree) (path : Path) (content : Bytes) : FileTree :=
  let tree := tree.makeWay path.above
  -- a path that ends with a slash names no file
  match flaw? path, Path.ending? path.parts with
  | none, some (before, name) => changeFolder (putFile name content) before tree
  | _, _ => tree

/-- The tree with a folder at a path, which keeps its entries if it is there. -/
def makeFolder (tree : FileTree) (path : Path) : FileTree :=
  match flaw? path with
  | some _ => tree
  | none => addFolder path.trimmedParts (tree.makeWay path.above)

/-- The tree without the entry at a path. A folder loses its entries first, and is then taken away
if the path, which may lead through them, still leads to it by its name. -/
def remove (tree : FileTree) (path : Path) : FileTree :=
  match tree.find path with
  | .error _ => tree
  | .ok place =>
    let emptied := update (mapEntries fun _ => []) place.names tree
    match Path.ending? path.trimmedParts with
    | some (before, name) => changeFolder (Table.erase name) before emptied
    | none => emptied

end FileTree

end ModuleServer
