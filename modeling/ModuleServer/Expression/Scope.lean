import ModuleServer.Expression.Binding

/-!
# Free names of expressions

An expression of a template is evaluated in a context, so its free names are written as members of
the context. A name is left alone where it is a word of the language, an allowed global, bound, or
the name of a member or a key; a shorthand entry of an object is written out.

The expression is cut into pieces: text that is copied, and names with the role they play. What is
written is put together from the pieces (`Piece.output`), and the expression itself is their source
(`flatMap_source_readPieces`), so that nothing is ever lost or moved.

Roles come from what the scan knows where a name starts (`Context`): the brackets that are open, the
last visible character, and the dots that end what has been written.
-/

namespace ModuleServer.Expression

open Text

/-! ## Pieces -/

/-- The part that a name plays. -/
inductive Role where
  /-- The name stands as it is. -/
  | bound
  /-- The name is one of the context. -/
  | free
  /-- The name is an entry of an object, key and value in one. -/
  | entry
deriving DecidableEq, Repr

/-- A piece of an expression. -/
inductive Piece where
  /-- Text that is copied. -/
  | verbatim (text : Text)
  /-- A name. -/
  | name (name : Text) (role : Role)
deriving DecidableEq, Repr

/-- The text that a piece was cut from. -/
def Piece.source : Piece → Text
  | .verbatim t => t
  | .name n _ => n

/-- The text that is written for a piece. -/
def Piece.output : Piece → Text
  | .verbatim t => t
  | .name n .bound => n
  | .name n .free => "_ctx.".toList ++ n
  | .name n .entry => n ++ ": _ctx.".toList ++ n

/-! ## Where a name stands -/

/-- What the scan knows where it stands. -/
structure Context where
  /-- Open brackets, innermost first. -/
  brackets : Text
  /-- The last character that is not white space. -/
  last : Option Char
  /-- How many dots end what has been written. -/
  dots : Nat
deriving DecidableEq, Repr

namespace Context

/-- Where an expression starts. -/
def start : Context :=
  ⟨[], none, 0⟩

/-- Behind one more character that opens and closes nothing. -/
def see (ctx : Context) (c : Char) : Context :=
  { ctx with
    last := if isWhite c then ctx.last else some c
    dots := if c = '.' then ctx.dots + 1 else 0 }

/-- Behind one more text that opens and closes nothing. -/
def seeAll (ctx : Context) (t : Text) : Context :=
  t.foldl see ctx

/-- Behind one more character outside of strings. -/
def pass (ctx : Context) (c : Char) : Context :=
  let brackets :=
    if c = '(' || c = '[' || c = '{' then c :: ctx.brackets
    else if c = ')' || c = ']' || c = '}' then ctx.brackets.tail
    else ctx.brackets
  { ctx.see c with brackets }

/-- Behind a name that ends with a character. -/
def named (ctx : Context) (c : Char) : Context :=
  { ctx with last := some c, dots := 0 }

/-- Whether a name here is the name of a member: the last visible character is a dot, and it is not
the end of a spread. -/
def afterDot (ctx : Context) : Bool :=
  ctx.last = some '.' && ctx.dots < 3

/-- Whether a name here can be the key of an object's entry. -/
def atKey (ctx : Context) : Bool :=
  ctx.brackets.head? = some '{' && (ctx.last = some '{' || ctx.last = some ',')

/-- The role of a name here, `next` being the first visible character behind it. -/
def role (ctx : Context) (locals : List Text) (name : Text) (next : Option Char) : Role :=
  if ctx.afterDot || isKeyword name || isAllowedGlobal name || locals.contains name then .bound
  else if ctx.atKey && next = some ':' then .bound
  else if ctx.atKey && (next = some ',' || next = some '}') then .entry
  else .free

end Context

/-! ## Strings -/

/-- The rest of a string up to its closing quote, and the text behind it. A backslash takes the
next character with it. -/
def readString (quote : Char) : Text → Text × Text
  | [] => ([], [])
  | '\\' :: c :: t => ('\\' :: c :: (readString quote t).1, (readString quote t).2)
  | c :: t =>
    if c = quote then ([c], t) else (c :: (readString quote t).1, (readString quote t).2)

/-- The inside of a hole of a template literal, and the text from the closing brace on. Only braces
are counted. -/
def readHole (depth : Nat) : Text → Text × Text
  | [] => ([], [])
  | c :: t =>
    if c = '}' then
      match depth with
      | 0 => ([], c :: t)
      | depth + 1 => (c :: (readHole depth t).1, (readHole depth t).2)
    else
      let depth := if c = '{' then depth + 1 else depth
      (c :: (readHole depth t).1, (readHole depth t).2)

theorem readString_append (quote : Char) (t : Text) :
    (readString quote t).1 ++ (readString quote t).2 = t := by
  fun_induction readString quote t <;> simp_all

theorem readHole_append (depth : Nat) (t : Text) :
    (readHole depth t).1 ++ (readHole depth t).2 = t := by
  fun_induction readHole depth t <;> simp_all

theorem length_readString_le (quote : Char) (t : Text) :
    (readString quote t).2.length ≤ t.length := by
  have := congrArg List.length (readString_append quote t)
  simp only [List.length_append] at this
  omega

theorem length_readHole (depth : Nat) (t : Text) :
    (readHole depth t).1.length + (readHole depth t).2.length = t.length := by
  have := congrArg List.length (readHole_append depth t)
  simpa only [List.length_append] using this

/-! ## The scan -/

/-- Where the scan is. -/
inductive Mode where
  /-- In code. -/
  | code (ctx : Context)
  /-- In the text of a template literal, with what is known before it. -/
  | literal (outer : Context)
deriving DecidableEq, Repr

/-- The pieces of a text. -/
def scan (locals : List Text) (mode : Mode) (t : Text) : List Piece :=
  match mode, t with
  | .code _, [] => []
  | .code ctx, c :: r =>
    -- a string is copied whole
    if c = '\'' ∨ c = '"' then
      .verbatim (c :: (readString c r).1) ::
        scan locals (.code (ctx.seeAll (c :: (readString c r).1))) (readString c r).2
    else if c = '`' then .verbatim [c] :: scan locals (.literal (ctx.see c)) r
    else if isNameStart c then
      let name := c :: r.takeWhile isNameChar
      let rest := r.dropWhile isNameChar
      .name name (ctx.role locals name (firstVisible? rest)) ::
        scan locals (.code (ctx.named (name.getLastD c))) rest
    -- so is a number, with the letters and dots that go on from its digits
    else if c.isDigit then
      let number := c :: r.takeWhile fun d => isNameChar d || d = '.'
      .verbatim number ::
        scan locals (.code (ctx.seeAll number)) (r.dropWhile fun d => isNameChar d || d = '.')
    else .verbatim [c] :: scan locals (.code (ctx.pass c)) r
  | .literal _, [] => []
  | .literal outer, '\\' :: c :: r =>
    .verbatim ['\\', c] :: scan locals (.literal ((outer.see '\\').see c)) r
  -- a hole is an expression of its own; the literal goes on behind its closing brace
  | .literal outer, '$' :: '{' :: r =>
    .verbatim ['$', '{'] ::
      (scan locals (.code .start) (readHole 0 r).1 ++
        match _h : (readHole 0 r).2 with
        | [] => []
        | brace :: rest => .verbatim [brace] :: scan locals (.literal (outer.see brace)) rest)
  | .literal outer, c :: r =>
    if c = '`' then .verbatim [c] :: scan locals (.code (outer.see c)) r
    else .verbatim [c] :: scan locals (.literal (outer.see c)) r
termination_by t.length
decreasing_by
  · exact Nat.lt_succ_of_le (length_readString_le c r)
  · simp
  · exact Nat.lt_succ_of_le (List.dropWhile_suffix _).length_le
  · exact Nat.lt_succ_of_le (List.dropWhile_suffix _).length_le
  · simp
  · simp only [List.length_cons]; omega
  · have := length_readHole 0 r
    simp only [List.length_cons]
    omega
  · have := length_readHole 0 r
    simp only [_h, List.length_cons] at this ⊢
    omega
  · simp
  · simp

/-- The pieces of an expression. -/
def readPieces (locals : List Text) (exp : Text) : List Piece :=
  scan locals (.code .start) exp

/-- The expression with its free names written as members of the context. `locals` are the names
that are bound around it. There is no answer where its parameters cannot be told. -/
def prefixNames? (locals : List Text) (exp : Text) : Option Text :=
  (parameterNames? exp).map fun names =>
    (readPieces (names ++ locals) exp).flatMap Piece.output

/-! ## Nothing is lost -/

theorem flatMap_source_scan (locals : List Text) (mode : Mode) (t : Text) :
    (scan locals mode t).flatMap Piece.source = t := by
  fun_induction scan locals mode t
  case case4 ctx c r _ _ _ name rest ih =>
    simp only [List.flatMap_cons, ih, Piece.source, name, rest, List.cons_append,
      List.takeWhile_append_dropWhile]
  case case5 ctx c r _ _ _ _ number ih =>
    simp only [List.flatMap_cons, ih, Piece.source, number, List.cons_append,
      List.takeWhile_append_dropWhile]
  case case9 outer r ih2 ih1 =>
    have hr := readHole_append 0 r
    simp only [List.flatMap_cons, List.flatMap_append, Piece.source, ih2, List.cons_append,
      List.nil_append]
    split
    · rename_i h
      simp_all
    · rename_i brace rest h
      have := ih1 brace rest h
      simp_all [Piece.source]
  all_goals simp_all [Piece.source, readString_append]

/-- The pieces of an expression are a cut of the expression. -/
theorem flatMap_source_readPieces (locals : List Text) (exp : Text) :
    (readPieces locals exp).flatMap Piece.source = exp :=
  flatMap_source_scan ..

end ModuleServer.Expression
