import ModuleServer.Server.Basic

/-!
# Sessions

A server and the files it works on, over time: files change, the server is told to reload,
specifiers are resolved and requests are answered.

* `Session.step` does one thing, `Session.run` one after the other.
-/

namespace ModuleServer

/-- One thing that happens. -/
inductive Step where
  /-- A file is written. -/
  | write (path : Path) (content : Bytes)
  /-- A folder is made. -/
  | makeFolder (path : Path)
  /-- A file or folder is removed. -/
  | remove (path : Path)
  /-- The server forgets what it has resolved. -/
  | reload
  /-- A specifier is resolved. -/
  | resolve (spec : Text)
  /-- A request is answered, at a reading of the clock. -/
  | handle (request : Request) (reading : Nat)
deriving DecidableEq, Repr

/-- What comes of it. -/
inductive Answer where
  /-- Nothing to say. -/
  | done
  /-- What a specifier stands for. -/
  | resolved (r : Except Failure Specifier.Resolved)
  /-- The answer to a request. -/
  | served (r : Outcome Failure Served)

/-- A server and the files it works on. -/
structure Session where
  /-- Files. -/
  tree : FileTree
  /-- Server. -/
  server : Server

namespace Session

/-- A session that has just started. -/
def start (config : Config) (tree : FileTree) : Session :=
  ⟨tree, .start config⟩

/-- The answer to a step, and the session behind it. -/
def step (s : Session) : Step → Answer × Session
  | .write path content => (.done, { s with tree := s.tree.write path content })
  | .makeFolder path => (.done, { s with tree := s.tree.makeFolder path })
  | .remove path => (.done, { s with tree := s.tree.remove path })
  | .reload => (.done, { s with server := s.server.reload })
  | .resolve spec =>
    let (r, server) := s.server.resolve s.tree spec
    (.resolved r, { s with server })
  | .handle request reading =>
    let (r, server) := s.server.handle s.tree reading request
    (.served r, { s with server })

/-- The answers to steps in turn, and the session behind them. -/
def run (s : Session) : List Step → List Answer × Session
  | [] => ([], s)
  | x :: xs =>
    let (answer, s) := s.step x
    let (answers, s) := run s xs
    (answer :: answers, s)

end Session

end ModuleServer
