import ModuleServer.Template.Node

/-!
# Directive names

A directive is written `v-name:arg.modifier`, or short as `:arg`, `@arg` or `#arg`. Any other name
is one of an attribute.
-/

namespace ModuleServer.Template

open Text

/-- The argument and the modifiers that are written behind a directive's name, each of them unless
empty. -/
def readArgument (t : Text) : Option Text × List Text :=
  match pieces (· = '.') t with
  | [] => (none, [])
  | arg :: modifiers =>
    (if arg.isEmpty then none else some arg, modifiers.filter fun m => !m.isEmpty)

/-- The name, argument and modifiers of a directive, if the text names one. -/
def readDirectiveName? : Text → Option (Text × Option Text × List Text)
  | 'v' :: '-' :: t =>
    let name := t.takeWhile fun c => c ≠ ':' ∧ c ≠ '.'
    match t.dropWhile fun c => c ≠ ':' ∧ c ≠ '.' with
    | ':' :: rest => some (name, readArgument rest)
    | rest => some (name, readArgument rest)
  | ':' :: t => some ("bind".toList, readArgument t)
  | '@' :: t => some ("on".toList, readArgument t)
  | '#' :: t => some ("slot".toList, readArgument t)
  | _ => none

/-- The attribute or directive that a name and a value write. -/
def Item.ofText (name : Text) (value : Option Text) (span : Span) : Item :=
  match readDirectiveName? name with
  | some (kind, arg, modifiers) =>
    .directive ⟨kind, arg, value.filter fun v => !isWhiteOnly v, modifiers, span⟩
  | none => .attribute ⟨name, value, span⟩

end ModuleServer.Template
