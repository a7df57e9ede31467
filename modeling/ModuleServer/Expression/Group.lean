import ModuleServer.Text.Basic

/-!
# Round brackets

The text of a bracketed group, found by counting brackets alone, from either end.
-/

namespace ModuleServer.Expression

/-- The text up to the bracket that closes a group, and the text behind that bracket. `depth`
counts the groups that are open inside. -/
def closeGroup? (opening closing : Char) (depth : Nat) : Text → Option (Text × Text)
  | [] => none
  | c :: t =>
    if c = closing then
      match depth with
      | 0 => some ([], t)
      | depth + 1 =>
        (closeGroup? opening closing depth t).map fun (inner, rest) => (c :: inner, rest)
    else
      (closeGroup? opening closing (if c = opening then depth + 1 else depth) t).map
        fun (inner, rest) => (c :: inner, rest)

/-- The inside of the group whose opening bracket has just been read, and the text behind it. -/
def groupAfter? (t : Text) : Option (Text × Text) :=
  closeGroup? '(' ')' 0 t

/-- The inside of the group that ends a text, given without its closing bracket. -/
def groupBefore? (t : Text) : Option Text :=
  (closeGroup? ')' '(' 0 t.reverse).map fun (inner, _) => inner.reverse

end ModuleServer.Expression
