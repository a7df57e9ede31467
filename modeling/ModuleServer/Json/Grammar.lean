import ModuleServer.Json.Number
import ModuleServer.Text.Property

/-!
# The grammar of JSON

A text is cut into tokens, and tokens are read into a document, which keeps what is written: numbers
by their digits, strings by their characters and code units. What a document means is decided
elsewhere; here a text is only refused if it does not have the form.

* `Document.parse?` reads a whole text.
-/

namespace ModuleServer.Json

open Text

/-! ## Tokens -/

/-- A part of a string: a character, or a code unit of 16 bits by its number. -/
inductive Letter where
  /-- A character. -/
  | char (c : Char)
  /-- A code unit. -/
  | unit (n : Nat)
deriving DecidableEq, Repr

/-- A token. -/
inductive Token where
  /-- A bracket, a colon or a comma. -/
  | mark (c : Char)
  /-- A word. -/
  | word (t : Text)
  /-- A number. -/
  | number (n : Number)
  /-- A string. -/
  | string (letters : List Letter)
deriving DecidableEq, Repr

/-- White space between tokens. -/
def isGap (c : Char) : Bool :=
  c = ' ' || c = '\n' || c = '\t' || c = '\r'

/-- The value of a hexadecimal digit. -/
def hex? (c : Char) : Option Nat :=
  if c.isDigit then some (c.toNat - 48)
  else if 'a' ≤ c ∧ c ≤ 'f' then some (c.toNat - 87)
  else if 'A' ≤ c ∧ c ≤ 'F' then some (c.toNat - 55)
  else none

/-- The character of an escape of two characters, by the second. -/
def escaped? (c : Char) : Option Char :=
  if c = '"' ∨ c = '\\' ∨ c = '/' then some c
  else if c = 'b' then some '\x08'
  else if c = 'f' then some '\x0c'
  else if c = 'n' then some '\n'
  else if c = 'r' then some '\r'
  else if c = 't' then some '\t'
  else none

/-- The letters of a string whose opening quote has just been read, and the text behind it. -/
def readString? : Text → Option (List Letter × Text)
  | [] => none
  | '"' :: t => some ([], t)
  | '\\' :: 'u' :: a :: b :: c :: d :: t =>
    match hex? a, hex? b, hex? c, hex? d with
    | some w, some x, some y, some z =>
      (readString? t).map fun (letters, rest) =>
        (.unit (((w * 16 + x) * 16 + y) * 16 + z) :: letters, rest)
    | _, _, _, _ => none
  | '\\' :: e :: t =>
    match escaped? e with
    | some c => (readString? t).map fun (letters, rest) => (.char c :: letters, rest)
    | none => none
  | c :: t =>
    if c.toNat < 0x20 ∨ c = '\\' then none
    else (readString? t).map fun (letters, rest) => (.char c :: letters, rest)

/-- The digits at the start of a text, and the text behind them. -/
def readDigits (t : Text) : List Nat × Text :=
  ((t.takeWhile Char.isDigit).map fun c => c.toNat - 48, t.dropWhile Char.isDigit)

/-- The digits at the start of a text, at least one, and the text behind them. -/
def readSomeDigits? (t : Text) : Option (List Nat × Text) :=
  match readDigits t with
  | ([], _) => none
  | (digits, rest) => some (digits, rest)

/-- The digits before the point: a single zero, or digits that start with none. -/
def readWhole? : Text → Option (List Nat × Text)
  | '0' :: t => some ([0], t)
  | t => readSomeDigits? t

/-- The digits behind the point, if there is one. -/
def readFraction? : Text → Option (Option (List Nat) × Text)
  | '.' :: t => (readSomeDigits? t).map fun (digits, rest) => (some digits, rest)
  | t => some (none, t)

/-- The exponent, if there is one. -/
def readExponent? : Text → Option (Option (Bool × List Nat) × Text)
  | c :: t =>
    if c = 'e' ∨ c = 'E' then
      match t with
      | '-' :: r => (readSomeDigits? r).map fun (digits, rest) => (some (true, digits), rest)
      | '+' :: r => (readSomeDigits? r).map fun (digits, rest) => (some (false, digits), rest)
      | r => (readSomeDigits? r).map fun (digits, rest) => (some (false, digits), rest)
    else some (none, c :: t)
  | [] => some (none, [])

/-- The number at the start of a text, and the text behind it. -/
def readNumber? (t : Text) : Option (Number × Text) :=
  let (negative, t) := match t with
    | '-' :: r => (true, r)
    | r => (false, r)
  do
    let (whole, t) ← readWhole? t
    let (fraction, t) ← readFraction? t
    let (exponent, t) ← readExponent? t
    return (⟨negative, whole, fraction, exponent⟩, t)

/-- Characters that are tokens. -/
def isMark (c : Char) : Bool :=
  c = '[' || c = ']' || c = '{' || c = '}' || c = ':' || c = ','

/-- The token at the start of `c :: t`, and the text behind it. -/
def readToken? (c : Char) (t : Text) : Option (Token × Text) :=
  if isMark c then some (.mark c, t)
  else if c = '"' then (readString? t).map fun (letters, rest) => (.string letters, rest)
  else if c.isAlpha then
    some (.word (c :: t.takeWhile Char.isAlpha), t.dropWhile Char.isAlpha)
  else (readNumber? (c :: t)).map fun (n, rest) => (.number n, rest)

/-- The tokens of a text. `fuel` bounds their number. -/
def readTokens? : Nat → Text → Option (List Token)
  | 0, _ => none
  | fuel + 1, t =>
    match t.dropWhile isGap with
    | [] => some []
    | c :: r =>
      match readToken? c r with
      | none => none
      | some (token, rest) => (readTokens? fuel rest).map (token :: ·)

/-- The tokens of a text; every token takes a character of it. -/
def tokens? (t : Text) : Option (List Token) :=
  readTokens? (t.length + 1) t

/-! ## Documents -/

/-- A document, as written. -/
inductive Document where
  /-- No value. -/
  | null
  /-- A truth value. -/
  | bool (b : Bool)
  /-- A number. -/
  | number (n : Number)
  /-- A string. -/
  | string (letters : List Letter)
  /-- Values in a row. -/
  | array (items : List Document)
  /-- Values under keys, in order, with repetitions. -/
  | object (members : List (List Letter × Document))
deriving Repr, Inhabited

mutual

/-- The value at the start of tokens, and the tokens behind it. -/
def readValue? : Nat → List Token → Option (Document × List Token)
  | 0, _ => none
  | fuel + 1, token :: rest =>
    match token with
    | .number n => some (.number n, rest)
    | .string letters => some (.string letters, rest)
    | .word w =>
      if w = "null".toList then some (.null, rest)
      else if w = "true".toList then some (.bool true, rest)
      else if w = "false".toList then some (.bool false, rest)
      else none
    | .mark c =>
      if c = '[' then
        match rest with
        | .mark ']' :: rest => some (.array [], rest)
        | _ => (readItems? fuel rest).map fun (items, rest) => (.array items, rest)
      else if c = '{' then
        match rest with
        | .mark '}' :: rest => some (.object [], rest)
        | _ => (readMembers? fuel rest).map fun (members, rest) => (.object members, rest)
      else none
  | _ + 1, [] => none

/-- The values of an array that is not empty, and the tokens behind its bracket. -/
def readItems? : Nat → List Token → Option (List Document × List Token)
  | 0, _ => none
  | fuel + 1, tokens =>
    match readValue? fuel tokens with
    | some (item, .mark ',' :: rest) =>
      (readItems? fuel rest).map fun (items, rest) => (item :: items, rest)
    | some (item, .mark ']' :: rest) => some ([item], rest)
    | _ => none

/-- The members of an object that is not empty, and the tokens behind its brace. -/
def readMembers? : Nat → List Token → Option (List (List Letter × Document) × List Token)
  | 0, _ => none
  | fuel + 1, tokens =>
    match tokens with
    | .string key :: .mark ':' :: tokens =>
      match readValue? fuel tokens with
      | some (value, .mark ',' :: rest) =>
        (readMembers? fuel rest).map fun (members, rest) => ((key, value) :: members, rest)
      | some (value, .mark '}' :: rest) => some ([(key, value)], rest)
      | _ => none
    | _ => none

end

/-- The document of a text, if it has the form of one. Each step of reading takes a token or goes
from a list to its first value. -/
def Document.parse? (t : Text) : Option Document :=
  match tokens? t with
  | none => none
  | some tokens =>
    match readValue? (2 * tokens.length + 1) tokens with
    | some (document, []) => some document
    | _ => none

end ModuleServer.Json
