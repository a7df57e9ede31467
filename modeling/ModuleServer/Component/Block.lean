import ModuleServer.Text.Position
import ModuleServer.Text.Property
import ModuleServer.Text.Table

/-!
# Blocks of a component file

A component file is a sequence of top-level blocks, of which three are kept: one template, one
script, and one setup script. A block holds its text as written, the attributes of its opening tag,
and the place of its text in the file. Everything else is skipped: other blocks, comments, and
text between blocks.

* `Component.add` places a block and refuses a second one of its kind.
-/

namespace ModuleServer

/-- Attributes of an opening tag; a name without a value has the empty one. -/
abbrev Attributes := Table Text

/-- A top-level block of a component file. -/
structure Block where
  /-- The text between the opening and the closing tag. -/
  content : Text
  /-- Attributes of the opening tag. -/
  attributes : Attributes
  /-- Place of `content` in the file. -/
  span : Span
deriving DecidableEq, Repr, Inhabited

namespace Block

/-- Value of an attribute of the opening tag. -/
def attribute? (b : Block) (name : Text) : Option Text :=
  b.attributes.get? name

/-- The language that the opening tag names. -/
def lang? (b : Block) : Option Text :=
  b.attribute? "lang".toList

end Block

/-- The sections of a component file. -/
structure Component where
  /-- The markup. -/
  template : Option Block
  /-- The script with the options object. -/
  script : Option Block
  /-- The setup script. -/
  setup : Option Block
deriving DecidableEq, Repr, Inhabited

namespace Component

/-- A file with no block at all. -/
def empty : Component :=
  ⟨none, none, none⟩

/-- Whether a file has neither a script of either kind nor a template. -/
def isEmpty (c : Component) : Bool :=
  c.template.isNone && c.script.isNone && c.setup.isNone

/-- What can be wrong with a component file. -/
inductive Fault where
  /-- A comment without its end. -/
  | unterminatedComment
  /-- An opening tag without its end. -/
  | unterminatedTag (name : Text)
  /-- A quoted attribute value without its closing quote. -/
  | unterminatedValue
  /-- A block without its closing tag. -/
  | missingEndTag (name : Text)
  /-- A second template. -/
  | secondTemplate
  /-- A second setup script. -/
  | secondSetup
  /-- A second script. -/
  | secondScript
deriving DecidableEq, Repr

/-- The text of a fault. -/
def Fault.message : Fault → Text
  | .unterminatedComment => "Unterminated comment".toList
  | .unterminatedTag name => "Unterminated <".toList ++ name ++ "> tag".toList
  | .unterminatedValue => "Unterminated attribute value".toList
  | .missingEndTag name => "Element is missing end tag: <".toList ++ name ++ ">".toList
  | .secondTemplate => "Single file component can contain only one <template> element".toList
  | .secondSetup => "Single file component can contain only one <script setup> element".toList
  | .secondScript => "Single file component can contain only one <script> element".toList

/-- A fault and its place in the file. -/
structure Error where
  /-- What is wrong. -/
  fault : Fault
  /-- Where. -/
  span : Span
deriving DecidableEq, Repr

/-- The text of an error, with its place. -/
def Error.render (e : Error) : Text :=
  e.fault.message ++ " at ".toList ++ e.span.render

/-- The file with one more block. `tag` is the name of its tag and `whole` the place of the block
with its tags, where a second block of one kind is reported. -/
def add (c : Component) (tag : Text) (block : Block) (whole : Span) : Except Error Component :=
  if tag = "template".toList then
    if c.template.isSome then .error ⟨.secondTemplate, whole⟩
    else .ok { c with template := some block }
  else if tag = "script".toList then
    if (block.attribute? "setup".toList).isSome then
      if c.setup.isSome then .error ⟨.secondSetup, whole⟩
      else .ok { c with setup := some block }
    else if c.script.isSome then .error ⟨.secondScript, whole⟩
    else .ok { c with script := some block }
  else .ok c

end Component

end ModuleServer
