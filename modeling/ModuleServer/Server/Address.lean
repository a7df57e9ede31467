import ModuleServer.Request

/-!
# Addresses of requests

A request asks for a path with a query, both still encoded. In front of the path a scheme and a
host may stand, which say nothing more; behind it a fragment, which is dropped. Only certain
characters may stand in each part.

* `Address.parse?` reads an address, `Address.request?` is the request for it.
-/

namespace ModuleServer

open Text

/-- What an address asks for. -/
inductive Address where
  /-- A path, and maybe a query. -/
  | path (path : Text) (query : Option Text)
  /-- A host, or the server as a whole. -/
  | noPath
deriving DecidableEq, Repr

namespace Address

/-! ## Path and query -/

/-- Characters that are no blank and control nothing. -/
def isGraphic (c : Char) : Bool :=
  0x20 < c.toNat && c.toNat ≠ 0x7F

/-- Characters of a path. -/
def isPathChar (c : Char) : Bool :=
  isGraphic c && !"#<>?`".toList.contains c

/-- Characters of a query. -/
def isQueryChar (c : Char) : Bool :=
  isGraphic c && !"\"#<>".toList.contains c

/-- The text before the first occurrence of a character, and what follows it, if it occurs. -/
def cutAt (c : Char) (t : Text) : Text × Option Text :=
  match cut? [c] t with
  | some (before, behind) => (before, some behind)
  | none => (t, none)

/-- The path and query of an address behind its host. No path is the path to the root. -/
def ofPath? (t : Text) : Option Address :=
  let (p, query) := cutAt '?' (cutAt '#' t).1
  if p.all isPathChar && (query.getD []).all isQueryChar then
    some (.path (if p.isEmpty then ['/'] else p) query)
  else none

/-! ## Scheme and host -/

/-- Where reading a host stands. -/
structure HostScan where
  /-- Colons since the name or the brackets before them. -/
  colons : Nat := 0
  /-- Whether there is an opening bracket. -/
  opened : Bool := false
  /-- Whether there is a closing bracket. -/
  closed : Bool := false
  /-- Whether a byte is written since the name or the brackets. -/
  percent : Bool := false
  /-- Whether a name ends here. -/
  named : Bool := false
deriving DecidableEq, Repr

/-- Characters of a host that have no meaning of their own. -/
def isHostChar (c : Char) : Bool :=
  c.isAlphanum || "!$&'()*+,-.;=_~".toList.contains c

/-- Most colons in a row of groups. -/
def colonLimit : Nat := 8

/-- One more character of a host. -/
def HostScan.read? (s : HostScan) (c : Char) : Option HostScan :=
  let s := { s with named := c = '@' }
  if c = ':' then if s.colons < colonLimit then some { s with colons := s.colons + 1 } else none
  else if c = '[' then if s.percent || s.opened then none else some { s with opened := true }
  else if c = ']' then
    if !s.opened || s.closed then none
    else some { s with closed := true, colons := 0, percent := false }
  else if c = '@' then some { s with colons := 0, percent := false }
  else if c = '%' then some { s with percent := true }
  else if isHostChar c then some s
  else none

/-- Whether a text is a host, maybe with a name before it and a port behind it. -/
def isHost (t : Text) : Bool :=
  match t.foldlM HostScan.read? {} with
  | none => false
  | some s => !t.isEmpty && s.opened = s.closed && s.colons ≤ 1 && !s.percent && !s.named

/-- Characters of a scheme. -/
def isSchemeChar (c : Char) : Bool :=
  c.isAlphanum || c = '+' || c = '-' || c = '.' || c = '~'

/-- Most characters of a scheme. -/
def schemeLimit : Nat := 64

/-- What follows the scheme, if there is one. -/
def afterScheme? (t : Text) : Option Text :=
  match after? "://".toList (t.dropWhile isSchemeChar) with
  | some rest => if (t.takeWhile isSchemeChar).length ≤ schemeLimit then some rest else none
  | none => none

/-- Characters that end a host. -/
def endsHost (c : Char) : Bool :=
  c = '/' || c = '?' || c = '#'

/-! ## Reading -/

/-- Most bytes of an address. -/
def sizeLimit : Nat := 65534

/-- What an address asks for, if it is one. -/
def parse? (t : Text) : Option Address :=
  if sizeLimit < byteSize t then none
  else if t.head? = some '/' then ofPath? t
  else if t = ['*'] then some .noPath
  else
    match afterScheme? t with
    | some rest =>
      if isHost (rest.takeWhile fun c => !endsHost c) then
        ofPath? (rest.dropWhile fun c => !endsHost c)
      else none
    -- a host by itself names no path
    | none => if isHost t then some .noPath else none

/-- The request for an address, if it asks for a path. -/
def request? : Address → Option Request
  | path p query => some (Request.ofRaw p query)
  | noPath => none

end Address

end ModuleServer
