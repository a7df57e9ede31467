import ModuleServer.Component.Scan

/-!
# Printing component files

Component files as they are written: sections in any order, each a text, a comment or a block with
its opening tag. The types say what may be written: no text starts a tag, no body holds the closing
tag of its block, and the templates inside of a template are closed.

* `printAll` writes sections and `placed` says which blocks stand where.
* `ofPlaced` is the component with the first block of each kind.
* `Section.isQuiet` is the one condition beside the types: the opening tag of a nested template must
  not hold what looks like a comment or a template tag, not even in quotes.
-/

namespace ModuleServer.Component

open Text

/-! ## Texts -/

/-- Whether a text starts with the word of a tag, and the word ends there. -/
def startsTag (word t : Text) : Bool :=
  match after? word t with
  | some behind => endsName behind
  | none => false

/-- Whether a text starts with a comment, or with an opening or closing tag of a template. -/
def startsMark (t : Text) : Bool :=
  startsWith commentStart t || startsTag templateClose t || startsTag templateOpen t ||
    startsWith (templateOpen ++ ['/']) t

/-- Whether no comment and no tag of a template starts in a text. -/
def isUnmarked : Text → Bool
  | [] => true
  | c :: t => !startsMark (c :: t) && isUnmarked t

/-- Whether the closing tag that starts with `closing` does not start in a text. -/
def isUnclosed (closing : Text) : Text → Bool
  | [] => true
  | c :: t => !startsTag closing (c :: t) && isUnclosed closing t

/-- A comment: it starts as all comments do, and ends with the first end of one. -/
structure Comment where
  /-- The whole comment. -/
  text : Text
  /-- Its start. -/
  start : startsWith commentStart text
  /-- Its end. -/
  stop : ∃ inner, cut? commentEnd text = some (inner, [])

/-! ## Opening tags -/

/-- An attribute, behind the white space that parts it from what is before it. -/
structure Attribute where
  /-- White space. -/
  gap : Text
  /-- Name. -/
  name : Text
  /-- Value, if one is given. -/
  value : Option Text
  /-- There is white space, and nothing else before the name. -/
  gap_white : gap ≠ [] ∧ gap.all isWhite
  /-- There is a name, of the characters of one. -/
  name_char : name ≠ [] ∧ name.all isAttributeChar
  /-- The value can stand in quotes. -/
  value_quote : ∀ v ∈ value, '"' ∉ v

namespace Attribute

/-- The value of an attribute, behind its name. -/
def printValue (a : Attribute) : Text :=
  match a.value with
  | none => []
  | some value => '=' :: '"' :: (value ++ ['"'])

/-- An attribute as it is written. -/
def print (a : Attribute) : Text :=
  a.gap ++ (a.name ++ a.printValue)

end Attribute

/-- The attributes that a tag has: of several with one name, the value of the last. -/
def collect (attributes : List Attribute) : Attributes :=
  attributes.foldl (fun found a => Table.set a.name (a.value.getD []) found) []

/-- The opening tag of a block, without its brackets. -/
structure Opening where
  /-- Name. -/
  name : Text
  /-- Attributes in order. -/
  attributes : List Attribute
  /-- White space behind the attributes. -/
  gap : Text
  /-- The name starts with a letter. -/
  name_alpha : headIs Char.isAlpha name
  /-- The name is made of the characters of one, in lower case. -/
  name_char : name.all isTagChar ∧ lower name = name
  /-- There is nothing but white space behind the attributes. -/
  gap_white : gap.all isWhite

/-- An opening tag as it is written, without its brackets. -/
def Opening.print (o : Opening) : Text :=
  o.name ++ (o.attributes.flatMap Attribute.print ++ o.gap)

/-- The end of an opening tag. -/
def tagEnd (selfClosing : Bool) : Text :=
  if selfClosing then ['/', '>'] else ['>']

/-- The closing tag of a block. -/
def closingTag (name : Text) : Text :=
  '<' :: '/' :: (name ++ ['>'])

/-! ## Templates -/

/-- What stands between the name and the end of a nested template's opening tag. -/
structure TagText where
  /-- The text. -/
  text : Text
  /-- The tag does not end in it. -/
  open_end : '>' ∉ text
  /-- The name ends before it. -/
  start : text = [] ∨ headIs isWhite text

/-- The body of a template: texts in which nothing starts, and what stands between them. -/
inductive Body where
  /-- The last text. -/
  | last (t : Text) (ht : isUnmarked t)
  /-- A text, a comment, and what follows. -/
  | comment (t : Text) (ht : isUnmarked t) (c : Comment) (rest : Body)
  /-- A text, an empty template, and what follows. -/
  | empty (t : Text) (ht : isUnmarked t) (tag : TagText) (rest : Body)
  /-- A text, a template with a body, and what follows. -/
  | nested (t : Text) (ht : isUnmarked t) (tag : TagText)
      (htag : endsWith ['/'] (trimEnd tag.text) = false) (inner rest : Body)

namespace Body

/-- A body as it is written. -/
def print : Body → Text
  | last t _ => t
  | comment t _ c rest => t ++ (c.text ++ rest.print)
  | empty t _ tag rest => t ++ (templateOpen ++ (tag.text ++ '/' :: '>' :: rest.print))
  | nested t _ tag _ inner rest =>
    t ++ (templateOpen ++ (tag.text ++ '>' ::
      (inner.print ++ (templateClose ++ '>' :: rest.print))))

/-- Whether no comment and no tag of a template starts in the opening tag of a nested template. -/
def isQuiet : Body → Bool
  | last _ _ => true
  | comment _ _ _ rest => rest.isQuiet
  | empty _ _ tag rest => isUnmarked (tag.text ++ ['/', '>']) && rest.isQuiet
  | nested _ _ tag _ inner rest =>
    isUnmarked (tag.text ++ ['>']) && inner.isQuiet && rest.isQuiet

end Body

/-! ## Sections -/

/-- What stands at the top of a file. -/
inductive Section where
  /-- A text in which no tag starts. -/
  | text (t : Text) (ht : '<' ∉ t)
  /-- A comment. -/
  | comment (c : Comment)
  /-- A block that closes itself. -/
  | empty (o : Opening)
  /-- A block whose text is taken as it stands. -/
  | raw (o : Opening) (body : Text) (hname : o.name ≠ "template".toList)
      (hbody : isUnclosed ('<' :: '/' :: o.name) body)
  /-- A template. -/
  | template (o : Opening) (body : Body) (hname : o.name = "template".toList)

/-- A block and where it stands with its tags. -/
structure Placed where
  /-- The name of its tag. -/
  name : Text
  /-- The block. -/
  block : Block
  /-- The place of the block with its tags. -/
  whole : Span

/-- The block that stands behind an opening tag. `start` is where the tag starts, and `stop` where
the block ends with its closing tag. -/
def Opening.placed (o : Opening) (start stop : Nat) (selfClosing : Bool) (content : Text) :
    Placed :=
  let inside := start + byteSize ('<' :: (o.print ++ tagEnd selfClosing))
  ⟨o.name, ⟨content, collect o.attributes, ⟨inside, inside + byteSize content⟩⟩, ⟨start, stop⟩⟩

namespace Section

/-- A section as it is written. -/
def print : Section → Text
  | text t _ => t
  | comment c => c.text
  | empty o => '<' :: (o.print ++ tagEnd true)
  | raw o body _ _ => '<' :: (o.print ++ (tagEnd false ++ (body ++ closingTag o.name)))
  | template o body _ => '<' :: (o.print ++ (tagEnd false ++ (body.print ++ closingTag o.name)))

/-- The block of a section that starts at an offset, if it has one. -/
def placed? (start : Nat) : Section → Option Placed
  | text _ _ => none
  | comment _ => none
  | empty o => some (o.placed start (start + byteSize (empty o).print) true [])
  | raw o body hname hbody =>
    some (o.placed start (start + byteSize (raw o body hname hbody).print) false body)
  | template o body hname =>
    some (o.placed start (start + byteSize (template o body hname).print) false body.print)

/-- Whether the opening tags of nested templates hold no comment and no tag of a template. -/
def isQuiet : Section → Bool
  | template _ body _ => body.isQuiet
  | _ => true

end Section

/-- Sections as they are written. -/
def printAll (sections : List Section) : Text :=
  sections.flatMap Section.print

/-- The blocks of sections, of which the first starts at an offset. -/
def placed (start : Nat) : List Section → List Placed
  | [] => []
  | s :: sections => (s.placed? start).toList ++ placed (start + byteSize s.print) sections

/-! ## Kinds of blocks -/

/-- The kinds of blocks that a component keeps. -/
inductive Role where
  /-- The template. -/
  | template
  /-- The script. -/
  | script
  /-- The setup script. -/
  | setup
deriving DecidableEq, Repr

/-- The kind of a block, if it is one that is kept. -/
def Placed.role? (p : Placed) : Option Role :=
  if p.name = "template".toList then some .template
  else if p.name = "script".toList then
    if (p.block.attribute? "setup".toList).isSome then some .setup else some .script
  else none

/-- The first block of a kind. -/
def firstOf (role : Role) (blocks : List Placed) : Option Block :=
  (blocks.find? fun p => p.role? = some role).map (·.block)

/-- The component with the first block of each kind. -/
def ofPlaced (blocks : List Placed) : Component :=
  ⟨firstOf .template blocks, firstOf .script blocks, firstOf .setup blocks⟩

end ModuleServer.Component
