import ModuleServer.Failure
import ModuleServer.Text.Table
import ModuleServer.Text.Utf8

/-!
# Requests

A request for a module is a path and a query. Both come encoded: bytes as a percent sign and two
hexadecimal digits, and blanks of a query as plus signs. Bytes that are no text become replacement
characters.

* `Request.ofRaw` decodes; `extension?` and `variant` say what is asked for.
-/

namespace ModuleServer

open Text

/-! ## Decoding -/

namespace Percent

/-- The value of a hexadecimal digit. -/
def digit? (b : UInt8) : Option Nat :=
  let n := b.toNat
  if 48 ≤ n ∧ n ≤ 57 then some (n - 48)
  else if 65 ≤ n ∧ n ≤ 70 then some (n - 55)
  else if 97 ≤ n ∧ n ≤ 102 then some (n - 87)
  else none

/-- Bytes with every percent sign and two hexadecimal digits replaced by the byte they write. -/
def decode : Bytes → Bytes
  | [] => []
  | b :: h :: l :: t =>
    if b = 37 then
      match digit? h, digit? l with
      | some high, some low => UInt8.ofNat (high * 16 + low) :: decode t
      | _, _ => b :: decode (h :: l :: t)
    else b :: decode (h :: l :: t)
  | b :: t => b :: decode t

/-- The text that an encoded text stands for. -/
def decodeText (t : Text) : Text :=
  Utf8.decodeLossy (decode (Utf8.encode t))

end Percent

/-! ## Queries -/

/-- Parameters of a query. -/
abbrev Query := Table Text

namespace Query

/-- The name and value of a parameter, still encoded: parted by the first equals sign. -/
def cutParameter (t : Text) : Text × Text :=
  match cut? ['='] t with
  | some (name, value) => (name, value)
  | none => (t, [])

/-- The text that a part of a query stands for. -/
def decodePart (t : Text) : Text :=
  Percent.decodeText (replaceChar '+' ' ' t)

/-- The parameters of a query. A name given again keeps its last value. -/
def ofRaw (raw : Text) : Query :=
  ((pieces (· = '&') raw).filter fun p => !p.isEmpty).foldl
    (fun query p =>
      let (name, value) := cutParameter p
      Table.set (decodePart name) (decodePart value) query) []

end Query

/-! ## Requests -/

/-- A request for a module. -/
structure Request where
  /-- Path, decoded, with a slash in front. -/
  path : Text
  /-- Parameters. -/
  query : Query
deriving DecidableEq, Repr

/-- The modules that a component is served as. -/
inductive Variant where
  /-- The script, with the render function attached. -/
  | main
  /-- The render function. -/
  | template
deriving DecidableEq, Repr

namespace Request

/-- The request for a path and a query that are still encoded. -/
def ofRaw (path : Text) (query : Option Text) : Request :=
  let decoded := Percent.decodeText path
  { path := if decoded.head? = some '/' then decoded else '/' :: decoded
    query := (query.map Query.ofRaw).getD [] }

/-- The request with one more parameter. -/
def withQuery (r : Request) (name value : Text) : Request :=
  { r with query := r.query.set name value }

/-- The last segment of a path. -/
def lastSegment (path : Text) : Text :=
  match splitLast? (· = '/') path with
  | some (_, segment) => segment
  | none => path

/-- The extension of the last segment of the path. -/
def extension? (r : Request) : Option Text :=
  match splitLast? (· = '.') (lastSegment r.path) with
  | some (stem, ext) => if stem.isEmpty || ext.isEmpty then none else some ext
  | none => none

/-- Which module of a component is asked for. -/
def variant (r : Request) : Except Failure Variant :=
  match r.query.get? "type".toList with
  | none => .ok .main
  | some v =>
    if v = "template".toList then .ok .template else .error (.unsupportedVariant r.path v)

end Request

end ModuleServer
