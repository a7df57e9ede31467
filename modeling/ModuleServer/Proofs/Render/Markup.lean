import ModuleServer.Proofs.Script.Term
import ModuleServer.Render.Module

/-!
# Static markup

Native elements with attributes, and text: what a template of nothing else says, and what code says
that draws such markup.

* `Markup.ofNodes?` is the markup of nodes, if they are static.
* `Markup.ofCode?` is the markup that the code of a render function draws, if it can be told.
-/

namespace ModuleServer.Render

open Text Template
open Script (Term)

/-- An element or a text. -/
inductive Markup where
  /-- An element: its name, the values of its attributes in order, and what it holds. -/
  | element (tag : Text) (attributes : List (Text × Text)) (children : List Markup)
  /-- A text. -/
  | text (content : Text)
deriving Repr

namespace Markup

/-! ## Nodes -/

/-- The name and the value of an attribute. One without a value has an empty one. -/
def ofItem? : Item → Option (Text × Text)
  | .attribute a => some (a.name, a.value.getD [])
  | .directive _ => none

/-- The attributes of a tag, if it has nothing else and no two are of one name. -/
def ofItems? (items : List Item) : Option (List (Text × Text)) :=
  (items.mapM ofItem?).filter fun attributes => (attributes.map Prod.fst).Nodup

mutual

/-- The markup that a node is. -/
def ofNode? : Node → Option Markup
  | .element tag children _ =>
    if tag.kind = .native then
      (ofItems? tag.items).bind fun attributes =>
        (ofNodes? children).map (.element tag.name attributes)
    else none
  | .text content _ => some (.text content)
  | .interpolation .. => none

/-- The markup that nodes are. -/
def ofNodes? : List Node → Option (List Markup)
  | [] => some []
  | node :: nodes => (ofNode? node).bind fun m => (ofNodes? nodes).map (m :: ·)

end

/-! ## Code -/

/-- The attributes that a props object tells. -/
def attributesOf? : Term → Option (List (Text × Text))
  | .object entries => entries.mapM fun
    | (key, .string value) => some (key, value)
    | _ => none
  | .name t => if t = "null".toList then some [] else none
  | _ => none

mutual

/-- The markup that a term draws. -/
def ofTerm? : Term → Option Markup
  | .call function arguments =>
    if function = Helper.createTextVNode.localName then
      match arguments with
      | [.string content] => some (.text content)
      | _ => none
    else if function = Helper.createVNode.localName then
      match arguments with
      | [.string tag] => some (.element tag [] [])
      | [.string tag, props] =>
        (attributesOf? props).map fun attributes => .element tag attributes []
      | [.string tag, props, content] =>
        (attributesOf? props).bind fun attributes =>
          (ofContent? content).map (.element tag attributes)
      | _ => none
    else none
  | _ => none

/-- What an element holds: a single text, or nodes. -/
def ofContent? : Term → Option (List Markup)
  | .string content => some [.text content]
  | .array items => ofTerms? items
  | _ => none

/-- The markup that terms draw. -/
def ofTerms? : List Term → Option (List Markup)
  | [] => some []
  | term :: terms => (ofTerm? term).bind fun m => (ofTerms? terms).map (m :: ·)

end

/-- The markup that the result of a render function draws: nothing, a list of nodes, or a node. -/
def ofRoot? : Term → Option (List Markup)
  | .name t => if t = "null".toList then some [] else none
  | .call function [.name target, .name props, .array items] =>
    if function = Helper.createVNode.localName ∧ target = Helper.fragment.localName ∧
        props = "null".toList then ofTerms? items
    else none
  | term => (ofTerm? term).map fun m => [m]

/-- What a render function returns, as written: behind the `return` that it starts with, up to the
brace that closes it. -/
def returned? (code : Text) : Option Text :=
  (cut? (')' :: " \x7b\n  return ".toList) code).bind fun (_, body) =>
    (splitLast? (· = '}') body).map Prod.fst

/-- The markup that the code of a render function draws. -/
def ofCode? (code : Text) : Option (List Markup) :=
  ((returned? code).bind Term.read?).bind ofRoot?

end Markup

end ModuleServer.Render
