import ModuleServer.Template.Node
import ModuleServer.Proofs.Expression.Syntax

/-!
# Templates and their binders

Templates in which every expression is a path of names, every loop binds one name or two, and the
parameters of a slot are one name or an object pattern. Paths, loops and parameters are data here;
`Node.plain` is the template with their texts, as it is compiled.

* `Node.resolve` goes over a template with the names that are bound around it, and makes the paths
  whose head is free paths of the context.
* `Node.isProper` says where slots may stand: on components, and on the templates right inside a
  component that has no slot itself.
-/

namespace ModuleServer.Render.Lexical

open Text
open Expression (Gap Name isKeyword)

/-! ## Paths -/

/-- Names joined by dots. -/
structure Path where
  /-- The first name. -/
  head : Name
  /-- The names behind it. -/
  members : List Name := []

namespace Path

/-- The text of a path. -/
def text (p : Path) : Text :=
  p.head.text ++ p.members.flatMap fun n => '.' :: n.text

/-- The path where some names are bound: one of the context, unless its head is a word of the
language, an allowed global, or bound. -/
def resolve (bound : List Text) (p : Path) : Path :=
  if p.head.isFree bound then ⟨.context, p.head :: p.members⟩ else p

end Path

/-! ## Binders -/

/-- A name that is bound. -/
structure Binder extends Name where
  notKeyword : isKeyword text = false := by decide

/-- The names that a loop binds, as written before its source. -/
inductive LoopNames where
  /-- The item alone. -/
  | item (x : Binder)
  /-- The item and its index, in brackets. -/
  | indexed (first : Gap) (x : Binder) (beforeComma behindComma : Gap) (y : Binder) (last : Gap)

namespace LoopNames

/-- The text of the names of a loop. -/
def text : LoopNames → Text
  | item x => x.text
  | indexed first x beforeComma behindComma y last =>
    '(' :: (first.text ++ x.text ++ beforeComma.text ++ [','] ++ behindComma.text ++ y.text ++
      last.text ++ [')'])

/-- The names that are bound. -/
def names : LoopNames → List Text
  | item x => [x.text]
  | indexed _ x _ _ y _ => [x.text, y.text]

end LoopNames

/-- What a loop is over: its names and its source, with `in` or `of` between them. -/
structure Loop where
  /-- The names that are bound to an item. -/
  names : LoopNames
  /-- Whether the word between names and source is `of`. -/
  isOf : Bool := false
  /-- Where the items come from. -/
  source : Path

/-- The text of a loop. -/
def Loop.text (l : Loop) : Text :=
  l.names.text ++ (if l.isOf then " of ".toList else " in ".toList) ++ l.source.text

/-- An entry of an object pattern. -/
inductive Field where
  /-- A name that is key and bound in one. -/
  | shorthand (x : Binder)
  /-- A name that is bound to what stands under a key. -/
  | named (key : Name) (beforeColon behindColon : Gap) (x : Binder)

/-- The text of an entry. -/
def Field.text : Field → Text
  | shorthand x => x.text
  | named key beforeColon behindColon x =>
    key.text ++ beforeColon.text ++ [':'] ++ behindColon.text ++ x.text

/-- The name that an entry binds. -/
def Field.name : Field → Text
  | shorthand x => x.text
  | named _ _ _ x => x.text

/-- Entries with commas between them; a comma behind the last is followed by no entry. -/
inductive Fields where
  /-- No entry. -/
  | none (gap : Gap)
  /-- The last entry. -/
  | last (first : Gap) (field : Field) (behind : Gap)
  /-- An entry and a comma. -/
  | more (first : Gap) (field : Field) (behind : Gap) (others : Fields)

namespace Fields

/-- The text of entries. -/
def text : Fields → Text
  | none gap => gap.text
  | .last first field behind => first.text ++ field.text ++ behind.text
  | more first field behind others =>
    first.text ++ field.text ++ behind.text ++ [','] ++ others.text

/-- The names that entries bind. -/
def names : Fields → List Text
  | none _ => []
  | .last _ field _ => [field.name]
  | more _ field _ others => field.name :: others.names

end Fields

/-- The parameters of a slot. -/
inductive Params where
  /-- No parameters. -/
  | none
  /-- One name. -/
  | one (x : Binder)
  /-- An object pattern. -/
  | pattern (fields : Fields)

namespace Params

/-- The text of parameters, if there are any. -/
def text? : Params → Option Text
  | none => Option.none
  | one x => some x.text
  | pattern fields => some ('{' :: (fields.text ++ ['}']))

/-- The names that parameters bind. -/
def names : Params → List Text
  | none => []
  | one x => [x.text]
  | pattern fields => fields.names

end Params

/-! ## Directives -/

/-- Whether a directive's name is one of a condition. -/
def isCondition (name : Text) : Bool :=
  name = "if".toList || name = "else-if".toList

/-- The name and the expression of a directive. -/
inductive Action where
  /-- A loop. -/
  | loop (l : Loop)
  /-- A slot with its parameters. -/
  | slot (params : Params)
  /-- A binding, which has an expression. -/
  | bind (path : Path)
  /-- Any other directive. -/
  | other (name : Text) (path : Option Path)
      (known : name ∉ ["for".toList, "slot".toList, "bind".toList] := by decide)

namespace Action

/-- The name of the directive. -/
def name : Action → Text
  | loop _ => "for".toList
  | slot _ => "slot".toList
  | bind _ => "bind".toList
  | other name _ _ => name

/-- The text of the expression, if there is one. -/
def exp? : Action → Option Text
  | loop l => some l.text
  | slot params => params.text?
  | bind path => some path.text
  | other _ path _ => path.map Path.text

/-- The loop of a directive, if it is one. -/
def loop? : Action → Option Loop
  | loop l => some l
  | _ => none

/-- The parameters of a slot, if the directive is one. -/
def slot? : Action → Option Params
  | slot params => some params
  | _ => none

/-- The directive with its paths resolved. The source of a loop and a condition stand outside of the
element, every other path inside of it. -/
def resolve (outer inner : List Text) : Action → Action
  | loop l => loop { l with source := l.source.resolve outer }
  | slot params => slot params
  | bind path => bind (path.resolve inner)
  | other name path known =>
    other name (path.map (Path.resolve (if isCondition name then outer else inner))) known

end Action

/-- A directive. -/
structure Directive where
  /-- Name and expression. -/
  action : Action
  /-- Argument. -/
  arg : Option Text
  /-- Modifiers. -/
  modifiers : List Text
  /-- Place. -/
  span : Span

/-- What an opening tag holds beside its name. -/
inductive Item where
  /-- An attribute. -/
  | attribute (a : Template.Attribute)
  /-- A directive. -/
  | directive (d : Directive)

namespace Directive

/-- The directive as it is compiled. -/
def plain (d : Directive) : Template.Directive :=
  ⟨d.action.name, d.arg, d.action.exp?, d.modifiers, d.span⟩

/-- The directive with its paths resolved. -/
def resolve (outer inner : List Text) (d : Directive) : Directive :=
  { d with action := d.action.resolve outer inner }

end Directive

namespace Item

/-- The item as it is compiled. -/
def plain : Item → Template.Item
  | .attribute a => .attribute a
  | .directive d => .directive d.plain

/-- The item with its paths resolved. -/
def resolve (outer inner : List Text) : Item → Item
  | .attribute a => .attribute a
  | .directive d => .directive (d.resolve outer inner)

/-- The loop that an item is, if it is one. -/
def loop? : Item → Option Loop
  | .attribute _ => none
  | .directive d => d.action.loop?

/-- The parameters of the slot that an item is, if it is one. -/
def slot? : Item → Option Params
  | .attribute _ => none
  | .directive d => d.action.slot?

end Item

/-! ## Tags -/

/-- An opening tag. -/
structure Tag where
  /-- Name. -/
  name : Text
  /-- What the name refers to. -/
  kind : Template.Kind
  /-- Attributes and directives. -/
  items : List Item

namespace Tag

/-- The tag as it is compiled. -/
def plain (tag : Tag) : Template.Tag :=
  ⟨tag.name, tag.kind, tag.items.map Item.plain⟩

/-- The names that the loop of a tag binds. -/
def loopNames (tag : Tag) : List Text :=
  match tag.items.findSome? Item.loop? with
  | some l => l.names.names
  | none => []

/-- The names that the slot of a tag binds. -/
def slotNames (tag : Tag) : List Text :=
  match tag.items.findSome? Item.slot? with
  | some params => params.names
  | none => []

/-- Whether a tag has a slot. -/
def hasSlot (tag : Tag) : Bool :=
  (tag.items.findSome? Item.slot?).isSome

/-- The tag with its paths resolved. Its loop binds in the tag itself. -/
def resolve (bound : List Text) (tag : Tag) : Tag :=
  { tag with items := tag.items.map (Item.resolve bound (tag.loopNames ++ bound)) }

/-- Whether a tag may stand anywhere: its slot is one of a component, if it has one. -/
def isPlain (tag : Tag) : Bool :=
  !tag.hasSlot || tag.kind = .component

/-- Whether a tag is one of a template with a slot, with neither a loop nor a condition. -/
def isSlotTemplate (tag : Tag) : Bool :=
  tag.kind = .template && tag.hasSlot &&
    !(["if", "else-if", "else", "for"].any fun name => tag.plain.has name.toList)

/-- Whether templates with slots may stand right inside the element of a tag. -/
def admitsSlots (tag : Tag) : Bool :=
  tag.kind = .component && !tag.hasSlot

end Tag

/-! ## Nodes -/

/-- A node. -/
inductive Node where
  /-- An element with its children. -/
  | element (tag : Tag) (children : List Node) (span : Span)
  /-- A text. -/
  | text (content : Text) (span : Span)
  /-- A path shown as text. -/
  | interpolation (path : Path) (span : Span)

namespace Node

mutual

/-- The node as it is compiled. -/
def plain : Node → Template.Node
  | element tag children span => .element tag.plain (plainAll children) span
  | text content span => .text content span
  | interpolation path span => .interpolation path.text span

/-- The nodes as they are compiled. -/
def plainAll : List Node → List Template.Node
  | [] => []
  | node :: nodes => node.plain :: plainAll nodes

end

mutual

/-- The node with its paths resolved where some names are bound. The loop and the slot of an element
bind in its children. -/
def resolve (bound : List Text) : Node → Node
  | element tag children span =>
    element (tag.resolve bound) (resolveAll (tag.slotNames ++ (tag.loopNames ++ bound)) children)
      span
  | text content span => text content span
  | interpolation path span => interpolation (path.resolve bound) span

/-- The nodes with their paths resolved. -/
def resolveAll (bound : List Text) : List Node → List Node
  | [] => []
  | node :: nodes => node.resolve bound :: resolveAll bound nodes

end

mutual

/-- Whether slots stand where they may. `inComponent` is whether the node stands right inside a
component that has no slot itself. -/
def isProper (inComponent : Bool) : Node → Bool
  | element tag children _ =>
    (tag.isPlain || (inComponent && tag.isSlotTemplate)) && isProperAll tag.admitsSlots children
  | _ => true

/-- Whether slots stand where they may in nodes. -/
def isProperAll (inComponent : Bool) : List Node → Bool
  | [] => true
  | node :: nodes => node.isProper inComponent && isProperAll inComponent nodes

end

end Node

end ModuleServer.Render.Lexical
