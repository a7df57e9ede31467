import ModuleServer.Config.Basic
import ModuleServer.Files.Tree
import ModuleServer.Json.Value

/-!
# Config files

A config file is a JSON document with settings in two sections and one beside them, each of which
may be left out. A section is an object, whose unknown keys are passed over, or an array of its
fields in order. A known key may be given only once.

* `ConfigFile.parse?` reads the text of a config file, `ConfigFile.load` finds and reads the file.
* `Config.withFile` puts what the file sets over what is there.
-/

namespace ModuleServer

open Text Json

/-! ## Fields -/

namespace Json.Document

/-- The value of a key in members, if it is there at all; no answer if it is there twice. -/
def onlyMember? (members : List (Text × Document)) (key : Text) : Option (Option Document) :=
  match members.filter fun m => m.1 = key with
  | [] => some none
  | [(_, d)] => some (some d)
  | _ => none

/-- The values of the fields of a record, which is an object or an array. `least` is how many values
an array must have. -/
def fields? (least : Nat) (keys : List Text) : Document → Option (List (Option Document))
  | .object members => do
    let members ← members.mapM fun (k, d) => (text? k).map fun k => (k, d)
    keys.mapM (onlyMember? members)
  | .array items =>
    if least ≤ items.length ∧ items.length ≤ keys.length then
      some (items.map some ++ List.replicate (keys.length - items.length) none)
    else none
  | _ => none

/-- The value of a field that may be missing or null. -/
def setting? {α : Type} (read : Document → Option α) : Option Document → Option (Option α)
  | none => some none
  | some .null => some none
  | some d => (read d).map some

/-- The value of a field that may be missing, with a value for that case. -/
def section? {α : Type} (missing : α) (read : Document → Option α) : Option Document → Option α
  | none => some missing
  | some d => read d

/-- A truth value. -/
def asBool? : Document → Option Bool
  | .bool b => some b
  | _ => none

/-- The number of a port. -/
def asPort? : Document → Option UInt16
  | .number n =>
    match n.natural? with
    | some p => if p < UInt16.size then some (UInt16.ofNat p) else none
    | none => none
  | _ => none

end Json.Document

open Json.Document

/-! ## The file -/

/-- What a config file says about the address to listen at. -/
structure ServerSection where
  /-- Host. -/
  host : Option Text := none
  /-- Port. -/
  port : Option UInt16 := none
deriving DecidableEq, Repr

/-- What a config file says about resolving specifiers. -/
structure ResolveSection where
  /-- Directory of installed packages. -/
  depsDir : Option Text := none
  /-- Manifest field that names the entry of a package. -/
  entryField : Option Text := none
  /-- Whether resolved specifiers are remembered. -/
  cache : Option Bool := none
deriving DecidableEq, Repr

/-- A config file. -/
structure ConfigFile where
  /-- Where to listen. -/
  server : ServerSection := {}
  /-- Entry document. -/
  entry : Option Text := none
  /-- How to resolve. -/
  resolve : ResolveSection := {}
deriving DecidableEq, Repr

/-- The section on the address to listen at. -/
def ServerSection.ofDocument? (d : Document) : Option ServerSection := do
  match ← fields? 2 ["host".toList, "port".toList] d with
  | [host, port] => return ⟨← setting? asText? host, ← setting? asPort? port⟩
  | _ => none

/-- The section on resolving. -/
def ResolveSection.ofDocument? (d : Document) : Option ResolveSection := do
  match ← fields? 3 ["depsDir".toList, "entryField".toList, "cache".toList] d with
  | [depsDir, entryField, cache] =>
    return ⟨← setting? asText? depsDir, ← setting? asText? entryField, ← setting? asBool? cache⟩
  | _ => none

namespace ConfigFile

/-- The config file that a document is. -/
def ofDocument? (d : Document) : Option ConfigFile := do
  match ← fields? 0 ["server".toList, "entry".toList, "resolve".toList] d with
  | [server, entry, resolve] =>
    return ⟨← section? {} ServerSection.ofDocument? server, ← setting? asText? entry,
      ← section? {} ResolveSection.ofDocument? resolve⟩
  | _ => none

/-- The config file that a text is. -/
def parse? (t : Text) : Option ConfigFile :=
  (Document.parse? t).bind ofDocument?

end ConfigFile

/-- The configuration with the settings of a config file put over it. -/
def Config.withFile (c : Config) (file : ConfigFile) : Config :=
  { c with
    host := file.server.host.getD c.host
    port := file.server.port.getD c.port
    entry := file.entry.getD c.entry
    depsDir := file.resolve.depsDir.getD c.depsDir
    entryField := file.resolve.entryField.getD c.entryField
    resolveCache := file.resolve.cache.getD c.resolveCache }

/-! ## Loading -/

/-- Why there is no configuration. -/
inductive ConfigError where
  /-- The config file cannot be read. -/
  | unreadable (path : Path)
  /-- The config file is not of the right form. -/
  | malformed (path : Path)
deriving DecidableEq, Repr

/-- What is wrong with which file; the cause is said behind it. -/
def ConfigError.message : ConfigError → Text
  | unreadable path => "Failed to read config at ".toList ++ path ++ [':', ' ']
  | malformed path => "Failed to parse config at ".toList ++ path ++ [':', ' ']

namespace ConfigFile

/-- Name of the config file in the root. -/
def name : Text := "vitelet.json".toList

/-- The config file to read: the one asked for, or else the one in the root if there is one. -/
def path? (tree : FileTree) (root : Path) (asked : Option Path) : Option Path :=
  match asked with
  | some path => some (Path.join root path)
  | none =>
    let path := Path.join root name
    if tree.isFile path then some path else none

/-- The config file and where it is, if there is one. -/
def load (tree : FileTree) (root : Path) (asked : Option Path) :
    Except ConfigError (Option (Path × ConfigFile)) :=
  match path? tree root asked with
  | none => .ok none
  | some path =>
    match tree.readText path with
    | .error _ => .error (.unreadable path)
    | .ok t =>
      match parse? t with
      | none => .error (.malformed path)
      | some file => .ok (some (path, file))

end ConfigFile

end ModuleServer
