import ModuleServer.Render.Helper
import ModuleServer.Script.Literal

/-!
# Props

The attributes, bindings and listeners of an element, in source order, and the object that they
make together. Giving a key again replaces its value where it stands; classes and styles are joined
instead. A listener never replaces: it comes behind what is there. Where whole objects are spread,
the entries before, between and behind them are merged with them in order.

* `Assignment` is one contribution, `parts` the result of all of them.
* `helpers` are the helpers of all contributions, also of those that were replaced later.
-/

namespace ModuleServer.Render

open Text

/-- What a listener does when its event comes. -/
inductive Reaction where
  /-- Nothing. -/
  | nothing
  /-- It is the function that an expression names or writes. -/
  | function (exp : Text)
  /-- It evaluates an expression. -/
  | evaluate (exp : Text)
deriving DecidableEq, Repr

/-- A value in a props object. -/
inductive Value where
  /-- A text. -/
  | literal (text : Text)
  /-- An expression, in the context. -/
  | expression (exp : Text)
  /-- A listener with the modifiers that guard it and the keys that it answers to. -/
  | listener (reaction : Reaction) (guards keys : List Text)
  /-- Two classes joined. -/
  | joinedClass (first second : Value)
  /-- Two styles joined. -/
  | joinedStyle (first second : Value)
deriving DecidableEq, Repr

/-- One contribution to the props of an element. -/
inductive Assignment where
  /-- An attribute or a binding. -/
  | set (key : Text) (value : Value)
  /-- A listener, or the inner markup. -/
  | append (key : Text) (value : Value)
  /-- An object whose entries are all taken over. -/
  | spread (exp : Text)
deriving DecidableEq, Repr

/-- A part of the props of an element. -/
inductive Part where
  /-- A key with its value. -/
  | entry (key : Text) (value : Value)
  /-- A spread object. -/
  | spread (exp : Text)
deriving DecidableEq, Repr

/-! ## Merging -/

/-- The value of a key that has one and is given another. -/
def Value.combine (key : Text) (old new : Value) : Value :=
  if key = "class".toList then .joinedClass old new
  else if key = "style".toList then .joinedStyle old new
  else new

/-- The parts with a value given to a key. -/
def Part.set (key : Text) (value : Value) : List Part → List Part
  | [] => [.entry key value]
  | .entry k v :: rest =>
    if k = key then .entry k (v.combine key value) :: rest
    else .entry k v :: Part.set key value rest
  | .spread exp :: rest => .spread exp :: Part.set key value rest

/-- The parts with one more contribution. -/
def Part.add (parts : List Part) : Assignment → List Part
  | .set key value => Part.set key value parts
  | .append key value => parts ++ [.entry key value]
  | .spread exp => parts ++ [.spread exp]

/-- The parts that contributions make together. -/
def Assignment.parts (assignments : List Assignment) : List Part :=
  assignments.foldl Part.add []

/-! ## Helpers -/

namespace Value

/-- The helpers that a value calls. -/
def helpers : Value → List Helper
  | literal _ => []
  | expression _ => []
  | listener _ guards keys =>
    (if guards.isEmpty then [] else [.withModifiers]) ++
      (if keys.isEmpty then [] else [.withKeys])
  | joinedClass a b => .normalizeClass :: (a.helpers ++ b.helpers)
  | joinedStyle a b => .normalizeStyle :: (a.helpers ++ b.helpers)

end Value

/-- The helpers that a contribution calls by itself. -/
def Assignment.ownHelpers : Assignment → List Helper
  | .set _ value => value.helpers
  | .append _ value => value.helpers
  | .spread _ => [.mergeProps]

/-- The helpers that a part calls. -/
def Part.helpers : Part → List Helper
  | .entry _ value => value.helpers
  | .spread _ => [.mergeProps]

/-- The helpers of contributions: those they call by themselves, and those that joining adds. -/
def Assignment.helpers (assignments : List Assignment) : List Helper :=
  assignments.flatMap Assignment.ownHelpers ++ (Assignment.parts assignments).flatMap Part.helpers

/-! ## Writing -/

/-- A call. -/
def call (function : Text) (arguments : List Text) : Text :=
  function ++ ['('] ++ joined [',', ' '] arguments ++ [')']

/-- An array in one line. -/
def shortArray (items : List Text) : Text :=
  ['['] ++ joined [',', ' '] items ++ [']']

/-- The white space that starts a line. -/
def indent (depth : Nat) : Text :=
  List.replicate (2 * depth) ' '

/-- Items between brackets, each on a line of its own, one level deeper than the brackets. -/
def block (opening closing : Char) (depth : Nat) (items : List Text) : Text :=
  [opening, '\n'] ++ joined [',', '\n'] (items.map fun item => indent (depth + 1) ++ item) ++
    ['\n'] ++ indent depth ++ [closing]

/-- The longest object, in bytes, that is written in one line. -/
def lineLimit : Nat := 80

/-- An object, in one line if that is short enough. -/
def object (depth : Nat) (entries : List Text) : Text :=
  let line := ['{', ' '] ++ joined [',', ' '] entries ++ [' ', '}']
  if byteSize line ≤ lineLimit && !line.contains '\n' then line
  else block '{' '}' depth entries

namespace Reaction

/-- The function that listens. -/
def print : Reaction → Text
  | nothing => "() => \x7b\x7d".toList
  | function exp => exp
  | evaluate exp => "$event => (".toList ++ exp ++ [')']

end Reaction

namespace Value

/-- A function under modifiers, if there are any. -/
def wrap (helper : Helper) (modifiers : List Text) (function : Text) : Text :=
  if modifiers.isEmpty then function
  else call helper.localName [function, shortArray (modifiers.map Script.quote)]

/-- The code of a value. -/
def print : Value → Text
  | literal t => Script.quote t
  | expression exp => exp
  | listener reaction guards keys =>
    wrap .withKeys keys (wrap .withModifiers guards reaction.print)
  | joinedClass a b => call Helper.normalizeClass.localName [shortArray [a.print, b.print]]
  | joinedStyle a b => call Helper.normalizeStyle.localName [shortArray [a.print, b.print]]

end Value

/-- The parts as arguments: an object for each run of entries, and the spread expressions. -/
def Part.arguments (depth : Nat) (run : List Text) : List Part → List Text
  | [] => if run.isEmpty then [] else [object depth run.reverse]
  | .entry key value :: rest =>
    Part.arguments depth ((Script.key key ++ [':', ' '] ++ value.print) :: run) rest
  | .spread exp :: rest =>
    (if run.isEmpty then [] else [object depth run.reverse]) ++
      exp :: Part.arguments depth [] rest

/-- Whether a part is a spread object. -/
def Part.isSpread : Part → Bool
  | .spread _ => true
  | .entry .. => false

/-- The code of the props, if there are any. -/
def Assignment.print? (depth : Nat) (assignments : List Assignment) : Option Text :=
  let parts := Assignment.parts assignments
  let arguments := Part.arguments depth [] parts
  if parts.any Part.isSpread then some (call Helper.mergeProps.localName arguments)
  else arguments.head?

end ModuleServer.Render
