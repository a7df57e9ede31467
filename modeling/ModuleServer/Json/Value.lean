import ModuleServer.Json.Grammar

/-!
# JSON values

The value of a document, under the strict rules for manifests: strings are text, so code units come
in pairs or stand for a character by themselves; numbers are in range; and values are nested at most
`levelLimit` deep. Of a repeated key the last value counts.
-/

namespace ModuleServer.Json

/-- The character that two code units make. -/
def pair? (high low : Nat) : Option Char :=
  if 0xD800 ≤ high ∧ high < 0xDC00 ∧ 0xDC00 ≤ low ∧ low < 0xE000 then
    some (Char.ofNat (0x10000 + (high - 0xD800) * 0x400 + (low - 0xDC00)))
  else none

/-- Whether a code unit stands for a character only together with another. -/
def isHalf (n : Nat) : Bool :=
  0xD800 ≤ n && n < 0xE000

/-- The text of the letters of a string, if they are one. -/
def text? : List Letter → Option Text
  | [] => some []
  | .char c :: rest => (text? rest).map (c :: ·)
  | .unit n :: rest =>
    if isHalf n then
      match rest with
      | .unit m :: rest =>
        match pair? n m with
        | some c => (text? rest).map (c :: ·)
        | none => none
      | _ => none
    else (text? rest).map (Char.ofNat n :: ·)

/-- The greatest nesting of arrays and objects. -/
def levelLimit : Nat := 127

mutual

/-- Whether a document is a value, at most so many levels deep. -/
def Document.isValue (levels : Nat) : Document → Bool
  | .null => true
  | .bool _ => true
  | .number n => n.inRange
  | .string letters => (text? letters).isSome
  | .array items =>
    match levels with
    | 0 => false
    | levels + 1 => Document.areValues levels items
  | .object members =>
    match levels with
    | 0 => false
    | levels + 1 => Document.areMembers levels members

/-- Whether documents are values. -/
def Document.areValues (levels : Nat) : List Document → Bool
  | [] => true
  | d :: ds => Document.isValue levels d && Document.areValues levels ds

/-- Whether members have values, and keys that are text. -/
def Document.areMembers (levels : Nat) : List (List Letter × Document) → Bool
  | [] => true
  | (key, d) :: rest =>
    (text? key).isSome && Document.isValue levels d && Document.areMembers levels rest

end

namespace Document

/-- The value of a text, if it is one. -/
def parseStrict? (t : Text) : Option Document :=
  (parse? t).filter (isValue levelLimit)

/-- The text of a string. -/
def asText? : Document → Option Text
  | .string letters => text? letters
  | _ => none

/-- The value of a key of an object, the last one if it is repeated. -/
def member? (key : Text) : Document → Option Document
  | .object members =>
    members.reverse.findSome? fun (k, d) => if text? k = some key then some d else none
  | _ => none

end Document

end ModuleServer.Json
