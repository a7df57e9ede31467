import ModuleServer.Script.Literal
import ModuleServer.Template.Reference
import ModuleServer.Text.Property

/-!
# Reading literal code

Code without operators and functions of its own: names, strings in double quotes, arrays, objects
with plain or quoted keys, and calls. Code is read into tokens, and these with a stack of the
brackets that are open.

* `Term.read?` is what code says, if it is of this kind. Objects keep their entries in the order
  written.
-/

namespace ModuleServer.Script

open Text

/-! ## Strings -/

/-- Characters that end a line. -/
def isLineEnd (c : Char) : Bool :=
  c = '\n' || c = '\r' || c = '\u2028' || c = '\u2029'

/-- What some letters stand for behind a backslash. -/
def letterEscapes : List (Char × Char) :=
  [('b', '\x08'), ('f', '\x0c'), ('n', '\n'), ('r', '\r'), ('t', '\t'), ('v', '\x0b')]

/-- The string whose opening quote has just been read, and the text behind its closing quote. Codes
other than those of four digits behind a `u` are not read. -/
def readString? : Text → Option (Text × Text)
  | [] => none
  | '"' :: t => some ([], t)
  | '\\' :: 'u' :: d₁ :: d₂ :: d₃ :: d₄ :: t =>
    ((Template.Reference.digits? 16 0 [d₁, d₂, d₃, d₄]).bind Template.Reference.ofCode?).bind
      fun c => (readString? t).map fun (s, rest) => (c :: s, rest)
  | '\\' :: c :: t =>
    if c = 'u' || c = 'x' || c.isDigit || isLineEnd c then none
    else (readString? t).map fun (s, rest) => ((letterEscapes.lookup c).getD c :: s, rest)
  | c :: t =>
    if c = '\\' || isLineEnd c then none
    else (readString? t).map fun (s, rest) => (c :: s, rest)

theorem length_readString?_lt {t s rest : Text} (h : readString? t = some (s, rest)) :
    rest.length < t.length := by
  fun_induction readString? t generalizing s with
  | case1 => simp at h
  | case2 t =>
    obtain ⟨-, rfl⟩ := Prod.mk.inj (Option.some.inj h)
    simp
  | case3 d₁ d₂ d₃ d₄ t ih =>
    obtain ⟨c, -, h⟩ := Option.bind_eq_some_iff.1 h
    obtain ⟨⟨s', rest'⟩, hs, he⟩ := Option.map_eq_some_iff.1 h
    obtain ⟨-, rfl⟩ := Prod.mk.inj he
    have hless := ih hs
    simp only [List.length_cons]
    omega
  | case4 => simp at h
  | case5 c t _ _ ih =>
    obtain ⟨⟨s', rest'⟩, hs, he⟩ := Option.map_eq_some_iff.1 h
    obtain ⟨-, rfl⟩ := Prod.mk.inj he
    exact Nat.lt_succ_of_lt (Nat.lt_succ_of_lt (ih hs))
  | case6 => simp at h
  | case7 c t _ _ _ _ ih =>
    obtain ⟨⟨s', rest'⟩, hs, he⟩ := Option.map_eq_some_iff.1 h
    obtain ⟨-, rfl⟩ := Prod.mk.inj he
    exact Nat.lt_succ_of_lt (ih hs)

/-! ## Tokens -/

/-- The kinds of brackets. -/
inductive Bracket where
  | round
  | square
  | curly
deriving DecidableEq, Repr

/-- The bracket as it is written before what it holds. -/
def Bracket.opening : Bracket → Char
  | .round => '('
  | .square => '['
  | .curly => '{'

/-- The bracket as it is written behind what it holds. -/
def Bracket.closing : Bracket → Char
  | .round => ')'
  | .square => ']'
  | .curly => '}'

/-- A piece of code. -/
inductive Token where
  /-- A name. -/
  | name (t : Text)
  /-- A string. -/
  | string (t : Text)
  /-- An opening bracket. -/
  | opening (b : Bracket)
  /-- A closing bracket. -/
  | closing (b : Bracket)
  | comma
  | colon
  /-- Any other character. -/
  | other (c : Char)
deriving DecidableEq, Repr

/-- The token of a character that starts neither a name nor a string. -/
def mark (c : Char) : Token :=
  if c = ',' then .comma
  else if c = ':' then .colon
  else
    match [Bracket.round, .square, .curly].find? fun b => b.opening = c ∨ b.closing = c with
    | some b => if b.opening = c then .opening b else .closing b
    | none => .other c

/-- The tokens of code. -/
def tokens (t : Text) : List Token :=
  match t with
  | [] => []
  | c :: r =>
    if isBlank c then tokens r
    else if isPlainStart c then
      .name (c :: r.takeWhile isPlainChar) :: tokens (r.dropWhile isPlainChar)
    else if c = '"' then
      match _h : readString? r with
      | some (s, rest) => .string s :: tokens rest
      | none => .other c :: tokens r
    else mark c :: tokens r
termination_by t.length
decreasing_by
  · simp
  · exact Nat.lt_succ_of_le (List.dropWhile_suffix _).length_le
  · have := length_readString?_lt _h
    simp only [List.length_cons]
    omega
  · simp
  · simp

/-! ## Terms -/

/-- What code of this kind says. -/
inductive Term where
  /-- A name. -/
  | name (t : Text)
  /-- A string. -/
  | string (t : Text)
  /-- An array of its items. -/
  | array (items : List Term)
  /-- An object of its entries, in the order written. -/
  | object (entries : List (Text × Term))
  /-- A call of a function that has a name. -/
  | call (function : Text) (arguments : List Term)

/-- An open bracket, with what is complete inside it, last first. -/
inductive Frame where
  /-- An array. -/
  | array (items : List Term)
  /-- A call. -/
  | call (function : Text) (arguments : List Term)
  /-- An object that goes on with a key. -/
  | object (entries : List (Text × Term))
  /-- An object that goes on with the value of a key. -/
  | entry (key : Text) (entries : List (Text × Term))

/-- How far code has been read: the open brackets, innermost first, and the term that has just been
read inside the innermost of them. -/
structure Reading where
  /-- Open brackets, innermost first. -/
  frames : List Frame
  /-- The term just read. -/
  term : Option Term

/-- Whether any term may come next, rather than a key. -/
def takesTerm : List Frame → Bool
  | .object _ :: _ => false
  | _ => true

namespace Reading

/-- The term inside the innermost bracket is complete. -/
def comma : Reading → Option Reading
  | ⟨.array items :: frames, some v⟩ => some ⟨.array (v :: items) :: frames, none⟩
  | ⟨.call function arguments :: frames, some v⟩ =>
    some ⟨.call function (v :: arguments) :: frames, none⟩
  | ⟨.entry key entries :: frames, some v⟩ => some ⟨.object ((key, v) :: entries) :: frames, none⟩
  | _ => none

/-- What has just been read is a key. -/
def colon : Reading → Option Reading
  | ⟨.object entries :: frames, some (.name key)⟩ => some ⟨.entry key entries :: frames, none⟩
  | ⟨.object entries :: frames, some (.string key)⟩ => some ⟨.entry key entries :: frames, none⟩
  | _ => none

/-- One more bracket is open. -/
def openBracket : Bracket → Reading → Option Reading
  | .square, ⟨frames, none⟩ =>
    if takesTerm frames then some ⟨.array [] :: frames, none⟩ else none
  | .curly, ⟨frames, none⟩ =>
    if takesTerm frames then some ⟨.object [] :: frames, none⟩ else none
  | .round, ⟨frames, some (.name function)⟩ =>
    if takesTerm frames then some ⟨.call function [] :: frames, none⟩ else none
  | _, _ => none

/-- The innermost bracket is closed. A comma may stand before that. -/
def closeBracket : Bracket → Reading → Option Reading
  | .square, ⟨.array items :: frames, term⟩ =>
    some ⟨frames, some (.array (term.toList ++ items).reverse)⟩
  | .round, ⟨.call function arguments :: frames, term⟩ =>
    some ⟨frames, some (.call function (term.toList ++ arguments).reverse)⟩
  | .curly, ⟨.entry key entries :: frames, some v⟩ =>
    some ⟨frames, some (.object ((key, v) :: entries).reverse)⟩
  | .curly, ⟨.object entries :: frames, none⟩ => some ⟨frames, some (.object entries.reverse)⟩
  | _, _ => none

/-- One more token. -/
def step (r : Reading) : Token → Option Reading
  | .name t => if r.term.isNone then some { r with term := some (.name t) } else none
  | .string t => if r.term.isNone then some { r with term := some (.string t) } else none
  | .opening b => r.openBracket b
  | .closing b => r.closeBracket b
  | .comma => r.comma
  | .colon => r.colon
  | .other _ => none

end Reading

/-- What code says, if it is one term. -/
def Term.read? (t : Text) : Option Term :=
  match (tokens t).foldlM Reading.step ⟨[], none⟩ with
  | some ⟨[], term⟩ => term
  | _ => none

end ModuleServer.Script
