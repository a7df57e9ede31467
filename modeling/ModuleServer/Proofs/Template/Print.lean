import ModuleServer.Template.Tree

/-!
# Printing markup

Trees written as markup, and the trees that markup can say: their names hold no character that ends
one, their texts are condensed already, and no two texts are neighbours.

* `Node.print` writes a node; `Reference.encode` writes characters as references where they would
  end a text, a value or an expression.
* `Node.erase` forgets the places of nodes.
* `Node.areNormal` says which siblings can be read back.
-/

namespace ModuleServer.Template

open Text

/-! ## References -/

namespace Reference

/-- What stands between the marks of a character's reference. -/
def nameOf (c : Char) : Text :=
  if c = '&' then "amp".toList
  else if c = '<' then "lt".toList
  else if c = '"' then "quot".toList
  else '#' :: decimal c.toNat

/-- The text with some characters written as references. -/
def encode (written t : Text) : Text :=
  t.flatMap fun c => if written.contains c then '&' :: (nameOf c ++ [';']) else [c]

/-- The characters that are references in a text. -/
def inText : Text := ['&', '<', '{']

/-- The characters that are references in an interpolation. -/
def inInterpolation : Text := ['&', '}']

/-- The characters that are references in a value. -/
def inValue : Text := ['&', '"']

end Reference

/-! ## Items and tags -/

/-- An argument behind the name of a directive. -/
def printArgument : Option Text → Text
  | none => []
  | some arg => ':' :: arg

/-- The name of an item as it is written. -/
def Item.nameText : Item → Text
  | .attribute a => a.name
  | .directive d =>
    'v' :: '-' :: (d.name ++ printArgument d.arg ++ d.modifiers.flatMap fun m => '.' :: m)

/-- The value of an item, if it has one. -/
def Item.value? : Item → Option Text
  | .attribute a => a.value
  | .directive d => d.exp

/-- A value behind the name of an item. -/
def printValue : Option Text → Text
  | none => []
  | some value => '=' :: '"' :: (Reference.encode Reference.inValue value ++ ['"'])

/-- An item, behind the space that parts it from what is before it. -/
def Item.print (item : Item) : Text :=
  ' ' :: (item.nameText ++ printValue item.value?)

/-! ## Nodes -/

namespace Node

mutual

/-- A node as markup. -/
def print : Node → Text
  | .element tag children _ =>
    '<' :: (tag.name ++ tag.items.flatMap Item.print ++ ['>'] ++
      if isVoidTag tag.name then []
      else printAll children ++ '<' :: '/' :: (tag.name ++ ['>']))
  | .text content _ => Reference.encode Reference.inText content
  | .interpolation expression _ =>
    ['{', '{', ' '] ++ Reference.encode Reference.inInterpolation expression ++ [' ', '}', '}']

/-- Nodes as markup. -/
def printAll : List Node → Text
  | [] => []
  | node :: nodes => node.print ++ printAll nodes

end

end Node

/-! ## Places -/

/-- An item without its place. -/
def Item.erase : Item → Item
  | .attribute a => .attribute { a with span := ⟨0, 0⟩ }
  | .directive d => .directive { d with span := ⟨0, 0⟩ }

/-- A tag without the places of its items. -/
def Tag.erase (tag : Tag) : Tag :=
  { tag with items := tag.items.map Item.erase }

namespace Node

mutual

/-- A node without its place and those of all that it holds. -/
def erase : Node → Node
  | .element tag children _ => .element tag.erase (eraseAll children) ⟨0, 0⟩
  | .text content _ => .text content ⟨0, 0⟩
  | .interpolation expression _ => .interpolation expression ⟨0, 0⟩

/-- Nodes without their places. -/
def eraseAll : List Node → List Node
  | [] => []
  | node :: nodes => node.erase :: eraseAll nodes

end

end Node

/-! ## Trees that markup can say -/

/-- Whether a text can be a name, an argument or a modifier of a directive. -/
def isDirectivePart (t : Text) : Bool :=
  !t.isEmpty && t.all fun c => isItemChar c && c ≠ '.'

/-- Whether an item can be written: an attribute's name is not one of a directive. -/
def Item.isNormal : Item → Bool
  | .attribute a =>
    !a.name.isEmpty && a.name.all isItemChar && !startsWith ['v', '-'] a.name &&
      !headIs [':', '@', '#'].contains a.name
  | .directive d =>
    isDirectivePart d.name && d.name.all (· ≠ ':') && d.arg.all isDirectivePart &&
      d.modifiers.all isDirectivePart && d.exp.all fun exp => !isWhiteOnly exp

/-- Whether a tag can be written: its name starts with a letter and tells its kind. -/
def Tag.isNormal (tag : Tag) : Bool :=
  tag.kind = .ofName tag.name && headIs Char.isAlpha tag.name && tag.name.all isNameChar &&
    tag.items.all Item.isNormal

/-- Whether all white space of a text is single spaces. -/
def isCollapsed : Text → Bool
  | [] => true
  | c :: t => (!isWhite c || (c = ' ' && !headIs isWhite t)) && isCollapsed t

namespace Node

/-- Whether a node is a text. -/
def isText : Node → Bool
  | .text .. => true
  | _ => false

/-- Whether the texts of siblings are condensed: none is empty, no two are neighbours, and outside
of preformatted elements their white space is single spaces, alone only between two siblings.
`behindSibling` is whether there is a sibling before these. -/
def isSpaced (preformatted behindSibling : Bool) : List Node → Bool
  | [] => true
  | .text content _ :: rest =>
    !content.isEmpty && !rest.head?.any isText &&
      (preformatted || (isCollapsed content &&
        (!isWhiteOnly content || (behindSibling && !rest.isEmpty)))) &&
      isSpaced preformatted true rest
  | _ :: rest => isSpaced preformatted true rest

mutual

/-- Whether a node can be read back: a void element holds nothing, the texts of any other element
are condensed, and an interpolation has no white space around its expression. -/
def isNormal : Node → Bool
  | .element tag children _ =>
    tag.isNormal &&
      if isVoidTag tag.name then children.isEmpty
      else isSpaced (tag.name = "pre".toList) false children && allNormal children
  | .text .. => true
  | .interpolation expression _ => !headIs isWhite expression && !headIs isWhite expression.reverse

/-- Whether nodes can be read back one by one. -/
def allNormal : List Node → Bool
  | [] => true
  | node :: nodes => node.isNormal && allNormal nodes

end

/-- Whether the nodes of a template can be read back. -/
def areNormal (nodes : List Node) : Bool :=
  isSpaced false false nodes && allNormal nodes

end Node

end ModuleServer.Template
