import ModuleServer.Command
import ModuleServer.Server.Address
import ModuleServer.Server.Response
import ModuleServer.Server.Session
import ModuleServer.Version

/-!
# The program

Reads the command line and does what it says. To serve a project is to answer the addresses that
come in on standard input, one a line, each with its status, its content type and its content, from
the files as they are at that time.
-/

namespace ModuleServer

/-- The files and folders in a directory. -/
partial def readEntries (entries : List IO.FS.DirEntry) : IO (List (Text × FileTree)) :=
  entries.mapM fun entry => do
    let name := entry.fileName.toList
    if ← entry.path.isDir then
      let inside ← entry.path.readDir
      return (name, .folder (← readEntries inside.toList))
    else
      let content ← IO.FS.readBinFile entry.path
      return (name, .file content.toList)

/-- The file tree that holds a directory at its path, and nothing else. -/
def readTree (root : String) : IO FileTree := do
  let directory ← IO.FS.realPath root
  let entries ← readEntries (← directory.readDir).toList
  let names := (Path.parts root.toList).filter fun part => !Path.isIdle part
  return names.foldr (fun name tree => .folder [(name, tree)]) (.folder entries)

/-- The response to an address, if it is one and there is a response to it. -/
def respond? (s : Server) (tree : FileTree) (reading : Nat) (line : Text) :
    Option Response × Server :=
  match Address.parse? line with
  | none => (none, s)
  | some address =>
    match address.request? with
    | none => (some .unrouted, s)
    | some request =>
      let (outcome, s) := s.handle tree reading request
      (Response.ofOutcome? outcome, s)

/-- Answers the addresses that are left on standard input. -/
partial def answerLines (root : String) (s : Server) : IO Unit := do
  let line ← (← IO.getStdin).getLine
  if line.isEmpty then return
  let tree ← readTree root
  let (response, s) := respond? s tree (← IO.monoMsNow) (Text.trim line.toList)
  let out ← IO.getStdout
  match response with
  | none => out.putStrLn "400"
  | some r =>
    out.putStrLn (toString r.status ++ " " ++ r.contentType.getD "")
    out.write (ByteArray.mk r.body.toArray)
    out.putStrLn ""
  out.flush
  answerLines root s

/-- Serves the project at a directory. -/
def serveProject (root : String) (flags : Flags) : IO UInt32 := do
  match flags.config (← readTree root) root.toList with
  | .error e =>
    IO.eprintln (String.ofList e.message)
    return 1
  | .ok config =>
    IO.println ("  " ++ programName ++ " dev server for http://" ++ String.ofList config.address)
    IO.println ("  Entry: " ++ String.ofList config.entryPath)
    answerLines root (.start config)
    return 0

end ModuleServer

open ModuleServer in
/-- Does what the command line says. -/
def main (args : List String) : IO UInt32 := do
  match Command.ofArgs? args with
  | some .version =>
    IO.println (String.ofList versionLine)
    return 0
  | some (.dev root flags) =>
    let directory ← IO.FS.realPath (root.getD ".")
    serveProject directory.toString flags
  | none =>
    IO.eprintln ("usage: " ++ programName ++ " [version | dev [FLAGS]]")
    return 2
