import ModuleServer.Files.Path

/-!
# Configuration

What a server is told: where its project is, which address to listen at, what the entry document and
the directory of dependencies are called, and which files it serves.

* `entryPath`, `mountPath` and `depsPath` say where the entry document and the dependencies are, in
  addresses and among the files.
-/

namespace ModuleServer

open Text

/-- Configuration of a server. -/
structure Config where
  /-- Directory that every served path is under. -/
  root : Path
  /-- Host to listen at. -/
  host : Text := "127.0.0.1".toList
  /-- Port to listen at. -/
  port : UInt16 := 5137
  /-- Entry document, from the root. -/
  entry : Text := "index.html".toList
  /-- Directory of installed packages, from the root. -/
  depsDir : Text := "node_modules".toList
  /-- Manifest field that names the entry of a package. -/
  entryField : Text := "module".toList
  /-- Whether resolved specifiers are remembered. -/
  resolveCache : Bool := true
  /-- Extensions of scripts. -/
  scriptExtensions : List Text := ["js".toList, "mjs".toList]
  /-- Extension of components. -/
  componentExtension : Text := "vue".toList
deriving DecidableEq, Repr

namespace Config

/-- Path of the entry document in addresses. -/
def entryPath (c : Config) : Text :=
  '/' :: c.entry.dropWhile fun x => x = '/' || x = '.'

/-- Path that the dependencies are served under. -/
def mountPath (c : Config) : Text :=
  '/' :: stripBoth (· = '/') (replaceChar '\\' '/' c.depsDir)

/-- Directory of the dependencies. -/
def depsPath (c : Config) : Path :=
  Path.join c.root c.depsDir

/-- Address to listen at. -/
def address (c : Config) : Text :=
  c.host ++ [':'] ++ decimal c.port.toNat

end Config

end ModuleServer
