import ModuleServer.Component.Module
import ModuleServer.Freshness
import ModuleServer.Import.Resolution
import ModuleServer.Request
import ModuleServer.Specifier.Resolve

/-!
# The server

A request is answered from the files as they are: the entry document as it is, a script with its
imports resolved, and a component as one of its two modules, with its imports resolved likewise.
From one request to the next the server keeps what specifiers have been resolved to and the last
freshness token, nothing else.

* `Server.handle` answers a request, `Server.reload` forgets what has been resolved.
-/

namespace ModuleServer

open Text

/-- What a module is served as. -/
inductive ModuleKind where
  /-- The entry document. -/
  | entry
  /-- A script. -/
  | script
  /-- A module of a component. -/
  | component (variant : Variant)
deriving DecidableEq, Repr

namespace ModuleKind

/-- The name of a kind. -/
def name : ModuleKind → String
  | entry => "entry"
  | script => "script"
  | component .main => "component"
  | component .template => "component-template"

/-- The content type of a kind. -/
def contentType : ModuleKind → String
  | entry => "text/html"
  | script => "application/javascript"
  | component _ => "application/javascript"

end ModuleKind

/-- A module that has been served. -/
structure Served where
  /-- What it is served as. -/
  kind : ModuleKind
  /-- Content. -/
  body : Bytes
deriving DecidableEq, Repr

/-! ## Finding the module -/

namespace Config

/-- What a request is served as, by its extension and its parameters. -/
def classify (c : Config) (r : Request) : Except Failure ModuleKind :=
  match r.extension? with
  | none => .error (.unsupportedExtension r.path)
  | some ext =>
    if c.scriptExtensions.contains ext then .ok .script
    else if ext = c.componentExtension then r.variant.map .component
    else .error (.unsupportedExtension r.path)

/-- The file of a served path. -/
def filePath (c : Config) (path : Text) : Except Failure Path :=
  match Path.underRoot? c.root path with
  | some file => .ok file
  | none => .error (.outsideRoot path)

/-- The text of the file of a served path. -/
def readSource (c : Config) (tree : FileTree) (path : Text) : Except Failure Text := do
  let file ← c.filePath path
  match tree.readText file with
  | .ok source => .ok source
  | .error _ => .error (.fileNotFound path)

/-- The entry document. -/
def readEntry (c : Config) (tree : FileTree) : Except Failure Served := do
  let file ← c.filePath c.entryPath
  match tree.readBytes file with
  | .ok body => .ok ⟨.entry, body⟩
  | .error _ => .error (.fileNotFound c.entryPath)

/-- What a request is served as, and the text of its file. -/
def findModule (c : Config) (tree : FileTree) (r : Request) :
    Except Failure (ModuleKind × Text) := do
  let kind ← c.classify r
  let source ← c.readSource tree r.path
  return (kind, source)

/-- Whether a request is for the entry document. -/
def isEntry (c : Config) (r : Request) : Bool :=
  r.path = ['/'] || r.path = c.entryPath

/-- The resolution of imports in a file tree, over the memo. -/
def resolution (c : Config) (tree : FileTree) : Import.Resolution Specifier.Memo Failure :=
  fun spec memo =>
    let (resolved, memo) := Specifier.resolve c tree spec memo
    (resolved.map Specifier.Resolved.url, memo)

end Config

/-! ## Making the module -/

/-- The code of a module before its imports are resolved, and the clock behind it. Only a main
module takes a token, and only when the component file can be read. -/
def moduleCode (kind : ModuleKind) (path source : Text) (clock : Clock) (reading : Nat) :
    Outcome Failure Text × Clock :=
  match kind with
  | .component .main =>
    match Component.read path source with
    | .ok c => (.ok (Component.mainModule path (clock.tick reading) c), clock.advance reading)
    | .error e => (.error e, clock)
  | .component .template =>
    ((Component.read path source).bind
      (Component.templateModule Component.compiler path source), clock)
  | _ => (.ok source, clock)

/-! ## The server -/

/-- A server. -/
structure Server where
  /-- Configuration. -/
  config : Config
  /-- What specifiers have been resolved to. -/
  memo : Specifier.Memo
  /-- The last freshness token. -/
  clock : Clock
deriving DecidableEq, Repr

namespace Server

/-- A server that has just started. -/
def start (config : Config) : Server :=
  ⟨config, .start config, .start⟩

/-- The server with what has been resolved forgotten. -/
def reload (s : Server) : Server :=
  { s with memo := s.memo.clear }

/-- What a specifier stands for, and the server behind the question. -/
def resolve (s : Server) (tree : FileTree) (spec : Text) :
    Except Failure Specifier.Resolved × Server :=
  let (resolved, memo) := Specifier.resolve s.config tree spec s.memo
  (resolved, { s with memo })

/-- What a request for a module leads to before imports are resolved: the kind and the code of the
module, and the clock behind it. -/
def prepare (s : Server) (tree : FileTree) (reading : Nat) (r : Request) :
    Outcome Failure (ModuleKind × Text) × Clock :=
  -- no token is taken before the file is read
  match s.config.findModule tree r with
  | .error e => (.fail e, s.clock)
  | .ok (kind, source) =>
    let (code, clock) := moduleCode kind r.path source s.clock reading
    (code.map fun code => (kind, code), clock)

/-- A module with its imports resolved, and the server behind it. -/
def finish (s : Server) (tree : FileTree) (kind : ModuleKind) (code : Text) :
    Outcome Failure Served × Server :=
  let (code, memo) := Import.resolveAll (s.config.resolution tree) code s.memo
  (.ofExcept (code.map fun code => ⟨kind, Utf8.encode code⟩), { s with memo })

/-- The answer to a request, at a reading of the clock, and the server behind it. -/
def handle (s : Server) (tree : FileTree) (reading : Nat) (r : Request) :
    Outcome Failure Served × Server :=
  if s.config.isEntry r then (.ofExcept (s.config.readEntry tree), s)
  else
    -- nothing has been resolved before the code is there
    match s.prepare tree reading r with
    | (.error e, clock) => (.error e, { s with clock })
    | (.ok (kind, code), clock) => finish { s with clock } tree kind code

end Server

end ModuleServer
