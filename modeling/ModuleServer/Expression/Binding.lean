import ModuleServer.Expression.Group
import ModuleServer.Expression.Name

/-!
# Names that are bound

The names that a list of binding patterns binds, and the names that the functions inside an
expression bind.

* `bindingNames` reads patterns: a name before a colon is a key, what follows an equals sign is a
  default up to the next separator.
* `parameterNames?` reads the parameters of every function in an expression. It looks at the text
  before each arrow, and has no answer when a lone parameter is set off by a character of more than
  one byte.
-/

namespace ModuleServer.Expression

open Text

/-- Characters that end a default value. -/
def isSeparator (c : Char) : Bool :=
  c = ',' || c = ')' || c = '}' || c = ']'

/-- The names that binding patterns bind, in order. -/
def bindingNames (t : Text) : List Text :=
  match t with
  | [] => []
  | c :: r =>
    if isNameStart c then
      let name := c :: r.takeWhile isNameChar
      let rest := r.dropWhile isNameChar
      if firstVisible? rest = some ':' || isKeyword name then bindingNames rest
      else name :: bindingNames rest
    else if c = '=' then bindingNames (r.dropWhile fun d => !isSeparator d)
    else bindingNames r
termination_by t.length
decreasing_by
  all_goals first
    | exact Nat.lt_succ_of_le (List.dropWhile_suffix _).length_le
    | simp

/-- The names bound by the parameters behind every occurrence of the word for a function. -/
def functionParameters (t : Text) : List Text :=
  match _h : cut? "function".toList t with
  | none => []
  | some (_, rest) =>
    let here := match cut? ['('] rest with
      | some (_, inside) =>
        match groupAfter? inside with
        | some (parameters, _) => bindingNames parameters
        | none => []
      | none => []
    here ++ functionParameters rest
termination_by t.length
decreasing_by
  have := length_of_cut? _h
  have h8 : "function".toList.length = 8 := rfl
  omega

/-- The names bound by the parameters that end a text, given from its end on. -/
def parametersBefore? (reversed : Text) : Option (List Text) :=
  match reversed.dropWhile isWhite with
  | ')' :: before =>
    match closeGroup? ')' '(' 0 before with
    | some (inner, _) => some (bindingNames inner.reverse)
    -- nothing opens the group
    | none => some []
  | before =>
    let name := (before.takeWhile isNameChar).reverse
    match before.dropWhile isNameChar with
    | c :: _ => if c.utf8Size = 1 then some (if name.isEmpty then [] else [name]) else none
    | [] => some (if name.isEmpty then [] else [name])

/-- The names bound by the parameters before every arrow of a text; `seen` is what stands before
the text, from its end on. -/
def arrowParameters? (seen : Text) : Text → Option (List Text)
  | [] => some []
  | '=' :: '>' :: t =>
    match parametersBefore? seen, arrowParameters? ('>' :: '=' :: seen) t with
    | some here, some later => some (here ++ later)
    | _, _ => none
  | c :: t => arrowParameters? (c :: seen) t

/-- The names bound by the functions in an expression. -/
def parameterNames? (exp : Text) : Option (List Text) :=
  (arrowParameters? [] exp).map fun names => functionParameters exp ++ names

end ModuleServer.Expression
