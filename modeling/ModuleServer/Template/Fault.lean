import ModuleServer.Text.Position

/-!
# What can be wrong with a template

Faults of markup and faults of meaning, with their texts. `unavailable` is for a compiler that
fails for a reason of its own.
-/

namespace ModuleServer.Template

/-- What can be wrong with a template. -/
inductive Fault where
  /-- An element without its end tag. -/
  | missingEndTag (name : Text)
  /-- An end tag without its end. -/
  | unterminatedEndTag
  /-- An end tag that closes nothing that is open. -/
  | invalidEndTag (name : Text)
  /-- A comment without its end. -/
  | unterminatedComment
  /-- An interpolation without its end. -/
  | unterminatedInterpolation
  /-- An opening tag without its end. -/
  | unterminatedTag (name : Text)
  /-- A quoted attribute value without its closing quote. -/
  | unterminatedValue
  /-- An alternative without the condition it belongs to. -/
  | strayAlternative
  /-- A member of a conditional chain without a condition. -/
  | strayBranch
  /-- A directive that needs an expression and has none. -/
  | missingExpression (directive : Text)
  /-- A loop that is not of the form alias and source. -/
  | invalidLoop (expression : Text)
  /-- A dynamic component that does not say which. -/
  | missingTarget
  /-- A listener without an event. -/
  | missingEvent
  /-- A directive that is not supported. -/
  | unsupportedDirective (name : Text)
  /-- An argument that is only known when rendering. -/
  | dynamicArgument (directive : Text)
  /-- A failure of the compiler itself. -/
  | unavailable (message : Text)
deriving DecidableEq, Repr

/-- The text of a fault. -/
def Fault.message : Fault → Text
  | .missingEndTag name => "Element is missing end tag: <".toList ++ name ++ ">".toList
  | .unterminatedEndTag => "Unterminated end tag".toList
  | .invalidEndTag name => "Invalid end tag: </".toList ++ name ++ ">".toList
  | .unterminatedComment => "Unterminated comment".toList
  | .unterminatedInterpolation => "Interpolation end sign was not found".toList
  | .unterminatedTag name => "Unterminated <".toList ++ name ++ "> tag".toList
  | .unterminatedValue => "Unterminated attribute value".toList
  | .strayAlternative => "v-else/v-else-if has no adjacent v-if or v-else-if".toList
  | .strayBranch => "Unexpected branch in v-if chain".toList
  | .missingExpression name => "v-".toList ++ name ++ " is missing expression".toList
  | .invalidLoop exp => "v-for has invalid expression: ".toList ++ exp
  | .missingTarget => "<component> is missing is".toList
  | .missingEvent => "v-on without an event name is not supported".toList
  | .unsupportedDirective name => "Directive v-".toList ++ name ++ " is not supported".toList
  | .dynamicArgument name =>
    "Dynamic argument on v-".toList ++ name ++ " is not supported".toList
  | .unavailable message => message

/-- A fault and its place in the markup. -/
structure Error where
  /-- What is wrong. -/
  fault : Fault
  /-- Where. -/
  span : Span
deriving DecidableEq, Repr

/-- The text of an error, with its place. -/
def Error.render (e : Error) : Text :=
  e.fault.message ++ " at ".toList ++ e.span.render

end ModuleServer.Template
