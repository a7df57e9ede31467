import ModuleServer.Server.Basic

/-!
# Responses

What is sent back for a request: a module with its content type, or nothing but a status. Whatever
is sent may be kept, but must be asked for again before it is used.
-/

namespace ModuleServer

/-- A response. -/
structure Response where
  /-- Status. -/
  status : Nat
  /-- Content type. -/
  contentType : Option String
  /-- What may be kept. -/
  cacheControl : Option String
  /-- Content. -/
  body : Bytes
deriving DecidableEq, Repr

namespace Response

/-- The rule for what is sent: ask again before using it. -/
def revalidate : String := "no-cache"

/-- The response with a module. -/
def ofServed (m : Served) : Response :=
  ⟨200, some m.kind.contentType, some revalidate, m.body⟩

/-- The response to a request that cannot be served. -/
def notFound : Response :=
  ⟨404, none, some revalidate, []⟩

/-- The response to an address without a path. -/
def unrouted : Response :=
  ⟨404, none, none, []⟩

/-- The response for the answer to a request, if there is any. -/
def ofOutcome? : Outcome Failure Served → Option Response
  | .ok m => some (ofServed m)
  | .error (.failed _) => some notFound
  | .error .splitCharacter => none

end Response

end ModuleServer
