import ModuleServer.Template.Node

/-!
# Native elements

The names of native elements, and of those that have neither children nor an end tag. Any other
name is a component, apart from the two names with a meaning of their own.
-/

namespace ModuleServer.Template

/-- Elements without children and without an end tag. -/
def voidTags : List Text :=
  ["area", "base", "br", "col", "embed", "hr", "img", "input", "link", "meta", "param", "source",
   "track", "wbr"].map String.toList

/-- Elements of documents. -/
def documentTags : List Text :=
  ["html", "body", "base", "head", "link", "meta", "style", "title", "address", "article",
   "aside", "footer", "header", "hgroup", "h1", "h2", "h3", "h4", "h5", "h6", "nav", "section",
   "div", "dd", "dl", "dt", "figcaption", "figure", "picture", "hr", "img", "li", "main", "ol",
   "p", "pre", "ul", "a", "b", "abbr", "bdi", "bdo", "br", "cite", "code", "data", "dfn", "em",
   "i", "kbd", "mark", "q", "rp", "rt", "ruby", "s", "samp", "small", "span", "strong", "sub",
   "sup", "time", "u", "var", "wbr", "area", "audio", "map", "track", "video", "embed", "object",
   "param", "source", "canvas", "script", "noscript", "del", "ins", "caption", "col",
   "colgroup", "table", "thead", "tbody", "td", "th", "tr", "button", "datalist", "fieldset",
   "form", "input", "label", "legend", "meter", "optgroup", "option", "output", "progress",
   "select", "textarea", "details", "dialog", "menu", "summary", "template", "blockquote",
   "iframe", "tfoot", "search"].map String.toList

/-- Elements of drawings. -/
def drawingTags : List Text :=
  ["svg", "animate", "animateMotion", "animateTransform", "circle", "clipPath", "defs", "desc",
   "ellipse", "feBlend", "feColorMatrix", "feFlood", "feGaussianBlur", "feOffset", "filter",
   "foreignObject", "g", "image", "line", "linearGradient", "marker", "mask", "metadata", "path",
   "pattern", "polygon", "polyline", "radialGradient", "rect", "stop", "switch", "symbol",
   "text", "textPath", "tspan", "use", "view"].map String.toList

/-- Whether a name is one of a native element. -/
def isNativeTag (name : Text) : Bool :=
  documentTags.contains name || drawingTags.contains name

/-- Whether an element of this name has neither children nor an end tag. -/
def isVoidTag (name : Text) : Bool :=
  voidTags.contains name

/-- What a tag name refers to. -/
def Kind.ofName (name : Text) : Kind :=
  if name = "template".toList then .template
  else if name = "slot".toList then .outlet
  else if isNativeTag name then .native
  else .component

end ModuleServer.Template
