import ModuleServer.Text.Position
import ModuleServer.Text.Property

/-!
# Template trees

Markup is a tree of elements, text and interpolations. An element has an opening tag, which holds
its name, what the name refers to, and its attributes and directives in the order written.

* `Tag.directive?` and `Tag.attribute?` find the first of a name.
* `Node.isBlank` marks the white space that may stand between the members of a conditional chain.
-/

namespace ModuleServer.Template

open Text

/-- What a tag name refers to. -/
inductive Kind where
  /-- A native element. -/
  | native
  /-- A component, looked up when rendering. -/
  | component
  /-- A wrapper without an element of its own. -/
  | template
  /-- A place where a component shows what its parent passed. -/
  | outlet
deriving DecidableEq, Repr

/-- `name="value"`, or a name alone. -/
structure Attribute where
  /-- Name as written. -/
  name : Text
  /-- Value, if one is given. -/
  value : Option Text
  /-- Place in the markup. -/
  span : Span
deriving DecidableEq, Repr

/-- `v-name:arg.modifier="expression"`, or one of its short forms. -/
structure Directive where
  /-- Name without its `v-`. -/
  name : Text
  /-- Argument, if one is given. -/
  arg : Option Text
  /-- Expression, unless missing or blank. -/
  exp : Option Text
  /-- Modifiers in order. -/
  modifiers : List Text
  /-- Place in the markup. -/
  span : Span
deriving DecidableEq, Repr

/-- What an opening tag holds beside its name. -/
inductive Item where
  /-- An attribute. -/
  | attribute (a : Attribute)
  /-- A directive. -/
  | directive (d : Directive)
deriving DecidableEq, Repr

/-- Place of an item in the markup. -/
def Item.span : Item → Span
  | .attribute a => a.span
  | .directive d => d.span

/-- An opening tag. -/
structure Tag where
  /-- Name as written. -/
  name : Text
  /-- What the name refers to. -/
  kind : Kind
  /-- Attributes and directives in order. -/
  items : List Item
deriving DecidableEq, Repr

namespace Tag

/-- The first directive of a name. -/
def directive? (tag : Tag) (name : Text) : Option Directive :=
  tag.items.findSome? fun
    | .directive d => if d.name = name then some d else none
    | .attribute _ => none

/-- Whether the tag has a directive of a name. -/
def has (tag : Tag) (name : Text) : Bool :=
  (tag.directive? name).isSome

/-- The first attribute of a name. -/
def attribute? (tag : Tag) (name : Text) : Option Attribute :=
  tag.items.findSome? fun
    | .attribute a => if a.name = name then some a else none
    | .directive _ => none

end Tag

/-- A node of a template. -/
inductive Node where
  /-- An element with its children. -/
  | element (tag : Tag) (children : List Node) (span : Span)
  /-- A text, with character references replaced. -/
  | text (content : Text) (span : Span)
  /-- An expression shown as text. -/
  | interpolation (expression : Text) (span : Span)
deriving Repr, Inhabited

namespace Node

/-- Place of a node in the markup. -/
def span : Node → Span
  | .element _ _ s => s
  | .text _ s => s
  | .interpolation _ s => s

/-- Whether a node is an element. -/
def isElement : Node → Bool
  | .element .. => true
  | _ => false

/-- Whether a node is a text of nothing but white space. -/
def isBlank : Node → Bool
  | .text content _ => isWhiteOnly content
  | _ => false

mutual

/-- Whether two nodes are equal. -/
def decEq : (a b : Node) → Decidable (a = b)
  | .element tag children span, .element tag' children' span' =>
    have := decEqAll children children'
    decidable_of_iff (tag = tag' ∧ children = children' ∧ span = span') (by simp)
  | .text content span, .text content' span' =>
    decidable_of_iff (content = content' ∧ span = span') (by simp)
  | .interpolation exp span, .interpolation exp' span' =>
    decidable_of_iff (exp = exp' ∧ span = span') (by simp)
  | .element .., .text .. => isFalse nofun
  | .element .., .interpolation .. => isFalse nofun
  | .text .., .element .. => isFalse nofun
  | .text .., .interpolation .. => isFalse nofun
  | .interpolation .., .element .. => isFalse nofun
  | .interpolation .., .text .. => isFalse nofun

/-- Whether two lists of nodes are equal. -/
def decEqAll : (as bs : List Node) → Decidable (as = bs)
  | [], [] => isTrue rfl
  | a :: as, b :: bs =>
    have := decEq a b
    have := decEqAll as bs
    decidable_of_iff (a = b ∧ as = bs) (by simp)
  | [], _ :: _ => isFalse nofun
  | _ :: _, [] => isFalse nofun

end

instance : DecidableEq Node :=
  decEq

end Node

end ModuleServer.Template
