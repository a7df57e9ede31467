import ModuleServer.Render.Listener
import ModuleServer.Render.Node

/-!
# From templates to virtual nodes

A template is built from its innermost elements outwards. What an element becomes depends on the
names that are bound around it, so building it is a function of these names (`Sibling`); its parent
groups it with its siblings (`groups`) and then builds the groups in order:

* an element with a condition and the alternatives that follow it are one chain,
* adjacent texts and interpolations are one text,
* any other element stands for itself.

A loop binds its names in its element; a slot binds its parameters in its content. The first thing
that is wrong, in the order of building, is the error of the whole.
-/

namespace ModuleServer.Render

open Text Template

/-! ## Siblings -/

/-- A node as its parent sees it. -/
inductive Sibling where
  /-- An element: its tag, its place, and how the element and its children are built where the given
  names are bound. -/
  | element (tag : Tag) (span : Span) (build : List Text → Built VNode)
      (content : List Text → Built (List VNode))
  /-- A text. -/
  | text (content : Text)
  /-- An expression shown as text. -/
  | interpolation (exp : Text)

namespace Sibling

/-- Whether a sibling is an element. -/
def isElement : Sibling → Bool
  | element .. => true
  | _ => false

/-- Whether a sibling is a text of nothing but white space. -/
def isBlank : Sibling → Bool
  | text content => isWhiteOnly content
  | _ => false

/-- What a sibling adds to a text. -/
def part? (locals : List Text) : Sibling → Option (Built TextPart)
  | element .. => none
  | text content => some (.ok (.literal content))
  | interpolation exp => some ((inContext locals exp).map .shown)

end Sibling

/-- The text that siblings make together. -/
def textRun (locals : List Text) (siblings : List Sibling) : Built (List TextPart) :=
  (siblings.filterMap (Sibling.part? locals)).mapM id

/-! ## Groups -/

/-- A member of a conditional chain. -/
structure Branch where
  /-- Opening tag. -/
  tag : Tag
  /-- Place. -/
  span : Span
  /-- How the element is built. -/
  build : List Text → Built VNode

/-- Siblings that become one node. -/
inductive Group where
  /-- A conditional chain. -/
  | chain (first : Branch) (others : List Branch)
  /-- An alternative without the condition that it belongs to. -/
  | stray (span : Span)
  /-- An element by itself. -/
  | single (build : List Text → Built VNode)
  /-- Texts and interpolations. -/
  | run (siblings : List Sibling)

/-- Whether a tag is one of an alternative. -/
def isAlternative (tag : Tag) : Bool :=
  tag.has "else-if".toList || tag.has "else".toList

/-- The alternatives that follow a condition, and the siblings behind them. White space before an
alternative belongs to the chain; `back` is where the siblings go on if none follows. -/
def alternatives (back : List Sibling) : List Sibling → List Branch × List Sibling
  | [] => ([], back)
  | .element tag span build _ :: rest =>
    if tag.has "else-if".toList then
      let (others, behind) := alternatives rest rest
      (⟨tag, span, build⟩ :: others, behind)
    else if tag.has "else".toList then ([⟨tag, span, build⟩], rest)
    else ([], back)
  | sibling :: rest => if sibling.isBlank then alternatives back rest else ([], back)

theorem length_alternatives_le (back siblings : List Sibling)
    (h : siblings.length ≤ back.length) :
    (alternatives back siblings).2.length ≤ back.length := by
  fun_induction alternatives back siblings with
  | case1 => simp
  | case2 back tag span build content rest _ others behind heq ih =>
    have h1 := ih (Nat.le_refl _)
    simp only [heq] at h1
    simp only [List.length_cons] at h
    dsimp only
    omega
  | case3 back tag span build content rest _ _ =>
    simp only [List.length_cons] at h
    dsimp only
    omega
  | case4 => simp
  | case5 back sibling rest _ _ ih =>
    simp only [List.length_cons] at h
    exact ih (by omega)
  | case6 => simp

/-- The groups of siblings, in order. -/
def groups (siblings : List Sibling) : List Group :=
  match siblings with
  | [] => []
  | .element tag span build _ :: rest =>
    if tag.has "if".toList then
      .chain ⟨tag, span, build⟩ (alternatives rest rest).1 :: groups (alternatives rest rest).2
    else if isAlternative tag then .stray span :: groups rest
    else .single build :: groups rest
  | sibling :: rest =>
    .run (sibling :: rest.takeWhile fun s => !s.isElement) ::
      groups (rest.dropWhile fun s => !s.isElement)
termination_by siblings.length
decreasing_by
  · exact Nat.lt_succ_of_le (length_alternatives_le rest rest (Nat.le_refl _))
  · simp
  · simp
  · exact Nat.lt_succ_of_le (List.dropWhile_suffix _).length_le

/-! ## Chains -/

/-- The condition of a member of a chain. -/
def condition (branch : Branch) : Built Text :=
  match (branch.tag.directive? "if".toList).or (branch.tag.directive? "else-if".toList) with
  | some d => required d
  | none => refuse .strayBranch branch.span

/-- Conditions put around what is shown if none of them holds, innermost first. -/
def choose (locals : List Text) (otherwise : VNode) : List Branch → Built VNode
  | [] => .ok otherwise
  | branch :: outer => do
    let test ← condition branch
    let node ← branch.build locals
    let test ← inContext locals test
    choose locals (.choice test node otherwise) outer

/-- The node of a conditional chain. -/
def buildChain (locals : List Text) (first : Branch) (others : List Branch) : Built VNode := do
  let branches := first :: others
  let last := branches.getLast (List.cons_ne_nil first others)
  -- what is shown last is built first
  if last.tag.has "else".toList then
    let otherwise ← last.build locals
    return .chain (← choose locals otherwise branches.dropLast.reverse)
  else return .chain (← choose locals .hidden branches.reverse)

/-- The node of a group. -/
def Group.build (locals : List Text) : Group → Built VNode
  | .chain first others => buildChain locals first others
  | .stray span => refuse .strayAlternative span
  | .single build => build locals
  | .run siblings => (textRun locals siblings).map .text

/-- The nodes of siblings. -/
def buildSiblings (locals : List Text) (siblings : List Sibling) : Built (List VNode) :=
  (groups siblings).mapM (Group.build locals)

/-! ## Loops -/

/-- The text before the first occurrence of one of the words that part a loop's names from its
source, and the text behind it. -/
def cutLoop? : Text → Option (Text × Text)
  | [] => none
  | c :: t =>
    match after? " in ".toList (c :: t), after? " of ".toList (c :: t) with
    | some rest, _ => some ([], rest)
    | none, some rest => some ([], rest)
    | none, none => (cutLoop? t).map fun (before, rest) => (c :: before, rest)

/-- The text without round brackets around it. -/
def unwrap (t : Text) : Text :=
  match t with
  | '(' :: r => match r.reverse with
    | ')' :: inner => inner.reverse
    | _ => t
  | _ => t

/-- The names and the source of a loop, as written. -/
def readLoop? (exp : Text) : Option (Text × Text) :=
  match cutLoop? exp with
  | none => none
  | some (names, source) =>
    if (trim names).isEmpty || (trim source).isEmpty then none
    else some (trim (unwrap (trim names)), trim source)

/-! ## Tags -/

/-- Refuses a tag with an argument that is only known when rendering. -/
def refuseDynamic : List Item → Built Unit
  | [] => .ok ()
  | .attribute _ :: items => refuseDynamic items
  | .directive d :: items =>
    if (d.arg.getD []).head? = some '[' then refuse (.dynamicArgument d.name) d.span
    else refuseDynamic items

/-- The first value that an item gives to a key: an attribute, or a binding with an expression. A
key without a value has the value `valueless`. -/
def keyValue? (locals : List Text) (key valueless : Text) : List Item → Built (Option Value)
  | [] => .ok none
  | .attribute a :: items =>
    if a.name = key then .ok (some (.literal (a.value.getD valueless)))
    else keyValue? locals key valueless items
  | .directive d :: items =>
    if d.name = "bind".toList ∧ d.arg = some key then
      match d.exp with
      | some exp => (inContext locals exp).map fun e => some (.expression e)
      | none => keyValue? locals key valueless items
    else keyValue? locals key valueless items

/-- The content of a native element. -/
inductive Content where
  /-- None. -/
  | none
  /-- A text. -/
  | text (run : List TextPart)
  /-- Nodes. -/
  | nodes (children : List VNode)

/-- The content of a native element: the text that a directive gives, or its children unless a
directive gives the inner markup. -/
def buildContent (locals : List Text) (tag : Tag) (children : List Sibling) : Built Content :=
  match tag.directive? "text".toList with
  | some d => do
    let exp ← required d
    return .text [.shown (← inContext locals exp)]
  | Option.none =>
    if tag.has "html".toList || children.isEmpty then .ok .none
    else if children.all fun c => !c.isElement then (textRun locals children).map .text
    else (buildSiblings locals children).map .nodes

/-- A native element. -/
def buildNative (locals : List Text) (tag : Tag) (children : List Sibling) : Built VNode := do
  let props ← assignments locals [] tag.items
  match ← buildContent locals tag children with
  | .none => return .leaf tag.name props
  | .text run => return .labelled tag.name props run
  | .nodes children => return .parent tag.name props children

/-- A place for a slot. -/
def buildOutlet (locals : List Text) (tag : Tag) (children : List Sibling) : Built VNode := do
  let name ← keyValue? locals "name".toList "default".toList tag.items
  let props ← assignments locals ["name".toList] tag.items
  let fallback ← buildSiblings locals children
  return .outlet (name.getD (.literal "default".toList)) props fallback

/-! ## Components -/

/-- The names bound in the content of a slot. -/
def slotLocals (locals : List Text) (params : Text) : List Text :=
  Expression.bindingNames params ++ locals

/-- The directive that makes a child a slot of its own: the one of a template. -/
def slotDirective? : Sibling → Option Directive
  | .element tag _ _ _ => if tag.kind = .template then tag.directive? "slot".toList else none
  | _ => none

/-- The slot that a template with a slot's directive is. -/
def buildSlot (locals : List Text) (d : Directive) (tag : Tag)
    (content : List Text → Built (List VNode)) : Built (Slot VNode) := do
  refuseDynamic tag.items
  let params := trim (d.exp.getD [])
  let children ← content (slotLocals locals params)
  return ⟨d.arg.getD "default".toList, params, children, false⟩

/-- The slot that a child is, if it is one of its own. -/
def namedSlot? (locals : List Text) (child : Sibling) : Option (Built (Slot VNode)) :=
  match child, slotDirective? child with
  | .element tag _ _ content, some d => some (buildSlot locals d tag content)
  | _, _ => none

/-- The slot of what stands in a component by itself, if that is more than white space. -/
def implicitSlot? (locals : List Text) (params : Text) (children : List Sibling) :
    Option (Built (Slot VNode)) :=
  if children.all Sibling.isBlank then none
  else some do
    let nodes ← buildSiblings (slotLocals locals params) children
    return ⟨"default".toList, params, nodes, true⟩

/-- The slots of a component. A component with a slot of its own passes all it holds as that; any
other passes each template with a slot's directive, and the rest. -/
def buildSlots (locals : List Text) (tag : Tag) (children : List Sibling) :
    Built (List (Slot VNode)) :=
  match tag.directive? "slot".toList with
  | some d => (implicitSlot? locals (trim (d.exp.getD [])) children).toList.mapM id
  | none =>
    -- the slots of templates are built before the rest, wherever that stands
    let rest := children.filter fun c => (slotDirective? c).isNone
    (children.filterMap (namedSlot? locals) ++ (implicitSlot? locals [] rest).toList).mapM id

/-- What a component node is made from. -/
def buildTarget (locals : List Text) (tag : Tag) (span : Span) : Built Target :=
  if tag.name = "component".toList then do
    match ← keyValue? locals "is".toList [] tag.items with
    | some value => return .dynamic value
    | none => refuse .missingTarget span
  else .ok (.named tag.name)

/-- A component. -/
def buildComponent (locals : List Text) (tag : Tag) (span : Span) (children : List Sibling) :
    Built VNode := do
  let target ← buildTarget locals tag span
  let props ← assignments locals ["is".toList] tag.items
  let slots ← buildSlots locals tag children
  return .component target props slots

/-! ## Elements -/

/-- An element, without regard to a loop. -/
def buildPlain (tag : Tag) (span : Span) (children : List Sibling) (locals : List Text) :
    Built VNode :=
  match tag.kind with
  | .template => (buildSiblings locals children).map .fragment
  | .outlet => buildOutlet locals tag children
  | .component => buildComponent locals tag span children
  | .native => buildNative locals tag children

/-- An element, once for each item if it has a loop. -/
def buildElement (tag : Tag) (span : Span) (children : List Sibling) (locals : List Text) :
    Built VNode := do
  refuseDynamic tag.items
  match tag.directive? "for".toList with
  | none => buildPlain tag span children locals
  | some d =>
    let exp ← required d
    match readLoop? exp with
    | none => refuse (.invalidLoop exp) d.span
    | some (names, source) =>
      let item ← buildPlain tag span children (Expression.bindingNames names ++ locals)
      return .list (← inContext locals source) names item

mutual

/-- A node as its parent sees it. -/
def Sibling.ofNode : Node → Sibling
  | .element tag children span =>
    let inner := Sibling.ofNodes children
    .element tag span (buildElement tag span inner) fun locals => buildSiblings locals inner
  | .text content _ => .text content
  | .interpolation exp _ => .interpolation exp

/-- Nodes as their parent sees them. -/
def Sibling.ofNodes : List Node → List Sibling
  | [] => []
  | node :: nodes => Sibling.ofNode node :: Sibling.ofNodes nodes

end

/-- The virtual nodes of a template. -/
def buildTemplate (nodes : List Node) : Built (List VNode) :=
  buildSiblings [] (Sibling.ofNodes nodes)

end ModuleServer.Render
