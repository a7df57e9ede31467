import ModuleServer.Template.Token
import ModuleServer.Template.Whitespace

/-!
# From tokens to a tree

Reading goes over the tokens with the elements that are open: an opening tag opens an element, the
end tag of its name closes it, and what stands between them becomes its children with their white
space condensed. Void elements and tags that close themselves have no children. The first fault
ends the reading.

* `parse` is the tree of a text.
-/

namespace ModuleServer.Template

open Text

/-- An element that is open: its tag, where it starts, and the siblings before it, last first. -/
structure Frame where
  /-- Opening tag. -/
  tag : Tag
  /-- Where the element starts. -/
  start : Nat
  /-- Siblings before the element, last first. -/
  before : List Node

/-- How far the tree has been read: the open elements, innermost first, and the nodes read inside
the innermost of them, last first. -/
structure Reading where
  /-- Open elements, innermost first. -/
  frames : List Frame
  /-- Nodes inside the innermost open element, last first. -/
  nodes : List Node

namespace Reading

/-- Nothing has been read. -/
def start : Reading :=
  ⟨[], []⟩

/-- One more node where reading stands. -/
def push (r : Reading) (node : Node) : Reading :=
  { r with nodes := node :: r.nodes }

/-- One more token. -/
def step (r : Reading) : Token → Except Error Reading
  | .text content span => .ok (r.push (.text content span))
  | .interpolation expression span => .ok (r.push (.interpolation expression span))
  | .opening tag selfClosing span =>
    -- an element that cannot hold anything is complete
    if selfClosing || isVoidTag tag.name then .ok (r.push (.element tag [] span))
    else .ok ⟨⟨tag, span.start, r.nodes⟩ :: r.frames, []⟩
  | .ending name span =>
    match r.frames with
    | [] => .error ⟨.invalidEndTag name, span⟩
    | frame :: frames =>
      if lower frame.tag.name = lower name then
        let children := Node.condense (frame.tag.name = "pre".toList) r.nodes.reverse
        .ok ⟨frames, .element frame.tag children ⟨frame.start, span.stop⟩ :: frame.before⟩
      else .error ⟨.invalidEndTag name, span⟩
  | .fault error => .error error

/-- The tree, once all is read. `size` is the size of the markup. -/
def finish (size : Nat) (r : Reading) : Except Error (List Node) :=
  match r.frames with
  | [] => .ok (Node.condense false r.nodes.reverse)
  | frame :: _ => .error ⟨.missingEndTag frame.tag.name, ⟨frame.start, size⟩⟩

end Reading

/-- The tree of markup, or the first thing that is wrong with it. -/
def parse (source : Text) : Except Error (List Node) :=
  match (tokens source).foldlM Reading.step Reading.start with
  | .ok r => r.finish (byteSize source)
  | .error e => .error e

end ModuleServer.Template
