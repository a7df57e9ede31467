import ModuleServer.Template.Node

/-!
# Condensing white space

Among siblings, adjacent texts are one text. Outside of preformatted elements a text of white
space only is dropped at either end, and between two elements if it has a line feed, and is one
space otherwise; in any other text every run of white space becomes one space.
-/

namespace ModuleServer.Template

open Text

/-- The text with every run of white space as one space. `inRun` says whether the character before
was white. -/
def collapseFrom (inRun : Bool) : Text → Text
  | [] => []
  | c :: t =>
    if isWhite c then
      if inRun then collapseFrom true t else ' ' :: collapseFrom true t
    else c :: collapseFrom false t

/-- The text with every run of white space as one space. -/
def collapse (t : Text) : Text :=
  collapseFrom false t

namespace Node

/-- A node put in front of siblings, joined with the first of them if both are texts. -/
def consMerged : Node → List Node → List Node
  | .text a s, .text b u :: rest => .text (a ++ b) ⟨s.start, u.stop⟩ :: rest
  | node, rest => node :: rest

/-- Siblings with adjacent texts joined. -/
def mergeTexts (nodes : List Node) : List Node :=
  nodes.foldr consMerged []

/-- A text among its siblings, condensed: `before` is the sibling before it and `after` the one
behind it. Nothing remains of a text that is dropped. -/
def condenseText (before after : Option Node) (content : Text) (span : Span) : List Node :=
  if isWhiteOnly content then
    match before, after with
    | some p, some n =>
      if p.isElement && n.isElement && content.contains '\n' then [] else [.text [' '] span]
    | _, _ => []
  else [.text (collapse content) span]

/-- Siblings with their texts condensed, `before` being the sibling before them. -/
def condenseFrom (before : Option Node) : List Node → List Node
  | [] => []
  | .text content span :: rest =>
    condenseText before rest.head? content span ++ condenseFrom (some (.text content span)) rest
  | node :: rest => node :: condenseFrom (some node) rest

/-- Siblings with their white space condensed; inside a preformatted element it is kept. -/
def condense (preformatted : Bool) (nodes : List Node) : List Node :=
  if preformatted then mergeTexts nodes else condenseFrom none (mergeTexts nodes)

end Node

end ModuleServer.Template
