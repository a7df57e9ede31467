import ModuleServer.Config.Basic
import ModuleServer.Failure
import ModuleServer.Files.Tree
import ModuleServer.Json.Value
import ModuleServer.Specifier.Basic

/-!
# Resolving specifiers

A bare specifier stands for a file of an installed package: the one at the path inside the package,
or else the one that the manifest of the package names as its entry. Either way the package must
have a manifest. What has been resolved may be kept in a memo, which is asked first.

* `lookUp` resolves without the memo, `resolve` with it.
-/

namespace ModuleServer.Specifier

open Text

/-- A specifier that has been resolved. -/
structure Resolved where
  /-- Name of the package. -/
  package : Text
  /-- Path inside the package, if the specifier has one. -/
  subpath : Option Text
  /-- Address of the file. -/
  url : Text
deriving DecidableEq, Repr

/-! ## Without a memo -/

/-- The file of a package's manifest. -/
def manifestName : Text := "package.json".toList

/-- The manifest of a package. -/
def manifest (c : Config) (tree : FileTree) (package : Text) : Except Failure Json.Document :=
  match Path.underRoot? c.depsPath package with
  | none => .error (.manifestNotFound package (Path.join c.depsPath package))
  | some dir =>
    let path := Path.join dir manifestName
    match (tree.readText path).toOption.bind Json.Document.parseStrict? with
    | none => .error (.manifestNotFound package path)
    | some m => .ok m

/-- The text without any number of `./` at its start. -/
def dropHere : Text → Text
  | '.' :: '/' :: t => dropHere t
  | t => t

/-- The path of a package's entry, as its manifest names it. -/
def entry? (field : Text) (m : Json.Document) : Option Text :=
  (((m.member? field).bind Json.Document.asText?).map dropHere).filter fun t => !t.isEmpty

/-- The path inside the package that a specifier leads to. -/
def target (c : Config) (m : Json.Document) (package : Text) :
    Option Text → Except Failure Text
  | some path => .ok path
  | none =>
    match entry? c.entryField m with
    | some path => .ok path
    | none => .error (.entryFieldMissing package c.entryField)

/-- The address of a path inside a package. -/
def packageUrl (c : Config) (package path : Text) : Text :=
  c.mountPath ++ '/' :: package ++ '/' :: path

/-- What a specifier stands for in a file tree. -/
def lookUp (c : Config) (tree : FileTree) (spec : Text) : Except Failure Resolved := do
  let (package, subpath) := split spec
  let m ← manifest c tree package
  let path ← target c m package subpath
  return ⟨package, subpath, packageUrl c package path⟩

/-! ## With a memo -/

/-- What specifiers have been resolved to, if that is remembered. -/
abbrev Memo := Option (Table Resolved)

namespace Memo

/-- The memo of a server that has just started. -/
def start (c : Config) : Memo :=
  if c.resolveCache then some [] else none

/-- What a specifier has been resolved to. -/
def get? (memo : Memo) (spec : Text) : Option Resolved :=
  memo.bind (Table.get? spec)

/-- The memo with a specifier resolved. -/
def set (memo : Memo) (spec : Text) (r : Resolved) : Memo :=
  Option.map (Table.set spec r) memo

/-- The memo with everything forgotten. -/
def clear (memo : Memo) : Memo :=
  Option.map (fun _ => []) memo

/-- Number of specifiers that are remembered. -/
def count (memo : Memo) : Nat :=
  (memo.map List.length).getD 0

end Memo

/-- What a specifier stands for, and the memo behind the question. A failure is not remembered. -/
def resolve (c : Config) (tree : FileTree) (spec : Text) (memo : Memo) :
    Except Failure Resolved × Memo :=
  match memo.get? spec with
  | some r => (.ok r, memo)
  | none =>
    -- only what is found is remembered
    match lookUp c tree spec with
    | .ok r => (.ok r, memo.set spec r)
    | .error e => (.error e, memo)

end ModuleServer.Specifier
