import ModuleServer.Expression.Group
import ModuleServer.Expression.Name

/-!
# Shapes of expressions

The two shapes of expression that are a listener as they stand: a path of member names, and a
function. Every other expression is something to do when the event comes.
-/

namespace ModuleServer.Expression

open Text

/-- Whether a text is one name. -/
def isName : Text → Bool
  | [] => false
  | c :: t => isNameStart c && t.all isNameChar

/-- Whether an expression is a path of names joined by dots. -/
def isMemberPath (exp : Text) : Bool :=
  !(trim exp).isEmpty && (pieces (· = '.') (trim exp)).all isName

/-- What follows the parameters that start an expression: a bracketed group, or a run of name
characters. -/
def afterParameters? (exp : Text) : Option Text :=
  match exp with
  | [] => none
  | c :: t =>
    if c = '(' then (groupAfter? t).map fun (_, rest) => rest
    else if isNameChar c then some (t.dropWhile isNameChar)
    else none

/-- Whether an expression is a function: it starts with one of the two words that start one, or
with parameters and an arrow. -/
def isFunction (exp : Text) : Bool :=
  let exp := trimStart exp
  startsWith "function".toList exp || startsWith "async ".toList exp ||
    match afterParameters? exp with
    | some rest => startsWith ['=', '>'] (trimStart rest)
    | none => false

end ModuleServer.Expression
