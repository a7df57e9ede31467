import ModuleServer.Render.Module

/-!
# Generation without scopes

The generator as it would be if every expression were written as it stands: it knows of no names
that are bound, and puts nothing into the context. What siblings become together does not depend on
names, so siblings and groups are those of the generator; here they are built from no names at all.
-/

namespace ModuleServer.Render.Verbatim

open Text Template

/-! ## Contributions -/

/-- What a listener does, given its expression. -/
def react (exp : Option Text) : Reaction :=
  match exp.map trim with
  | none => .nothing
  | some [] => .nothing
  | some (c :: t) =>
    if Expression.isMemberPath (c :: t) || Expression.isFunction (c :: t) then .function (c :: t)
    else .evaluate (c :: t)

/-- The listener of a directive for an event. -/
def listen (event : Text) (d : Directive) : Assignment :=
  let options := d.modifiers.filter optionModifiers.contains
  let others := d.modifiers.filter fun m => !optionModifiers.contains m
  .append (listenerKey event ++ options.flatMap capitalize)
    (.listener (react d.exp) (others.filter guardModifiers.contains)
      (others.filter fun m => !guardModifiers.contains m))

/-- The binding of a directive to a key. -/
def bind (arg : Text) (d : Directive) : Assignment :=
  let key := if d.modifiers.contains "camel".toList then camelize arg else arg
  .set key (.expression (d.exp.getD (camelize arg)))

/-- The contribution of a directive, if it has one. -/
def assignDirective (skipped : List Text) (d : Directive) : Built (Option Assignment) := do
  if d.name = "bind".toList then
    match d.arg with
    | some arg => if skipped.contains arg then return none else return some (bind arg d)
    | none => return some (.spread (← required d))
  else if d.name = "on".toList then
    match d.arg with
    | some event => return some (listen event d)
    | none => refuse .missingEvent d.span
  else if d.name = "html".toList then
    return some (.append "innerHTML".toList (.expression (← required d)))
  else if structuralDirectives.contains d.name then return none
  else refuse (.unsupportedDirective d.name) d.span

/-- The contribution of an item, if it has one. -/
def assign (skipped : List Text) : Item → Built (Option Assignment)
  | .attribute a =>
    if skipped.contains a.name then .ok none
    else .ok (some (.set a.name (.literal (a.value.getD []))))
  | .directive d => assignDirective skipped d

/-- The contributions of items, in order. -/
def assignments (skipped : List Text) : List Item → Built (List Assignment)
  | [] => .ok []
  | item :: items => do
    let first ← assign skipped item
    let others ← assignments skipped items
    return first.toList ++ others

/-! ## Siblings -/

/-- What a sibling adds to a text. -/
def part? : Sibling → Option TextPart
  | .element .. => none
  | .text content => some (.literal content)
  | .interpolation exp => some (.shown exp)

/-- The text that siblings make together. -/
def textRun (siblings : List Sibling) : List TextPart :=
  siblings.filterMap part?

/-- Conditions put around what is shown if none of them holds, innermost first. -/
def choose (otherwise : VNode) : List Branch → Built VNode
  | [] => .ok otherwise
  | branch :: outer => do
    let test ← condition branch
    let node ← branch.build []
    choose (.choice test node otherwise) outer

/-- The node of a conditional chain. -/
def buildChain (first : Branch) (others : List Branch) : Built VNode := do
  let branches := first :: others
  let last := branches.getLast (List.cons_ne_nil first others)
  if last.tag.has "else".toList then
    let otherwise ← last.build []
    return .chain (← choose otherwise branches.dropLast.reverse)
  else return .chain (← choose .hidden branches.reverse)

/-- The node of a group. -/
def buildGroup : Group → Built VNode
  | .chain first others => buildChain first others
  | .stray span => refuse .strayAlternative span
  | .single build => build []
  | .run siblings => .ok (.text (textRun siblings))

/-- The nodes of siblings. -/
def buildSiblings (siblings : List Sibling) : Built (List VNode) :=
  (groups siblings).mapM buildGroup

/-! ## Tags -/

/-- The first value that an item gives to a key: an attribute, or a binding with an expression. -/
def keyValue? (key valueless : Text) : List Item → Option Value
  | [] => none
  | .attribute a :: items =>
    if a.name = key then some (.literal (a.value.getD valueless)) else keyValue? key valueless items
  | .directive d :: items =>
    if d.name = "bind".toList ∧ d.arg = some key then
      match d.exp with
      | some exp => some (.expression exp)
      | none => keyValue? key valueless items
    else keyValue? key valueless items

/-- The content of a native element. -/
def buildContent (tag : Tag) (children : List Sibling) : Built Content :=
  match tag.directive? "text".toList with
  | some d => (required d).map fun exp => .text [.shown exp]
  | Option.none =>
    if tag.has "html".toList || children.isEmpty then .ok .none
    else if children.all fun c => !c.isElement then .ok (.text (textRun children))
    else (buildSiblings children).map .nodes

/-- A native element. -/
def buildNative (tag : Tag) (children : List Sibling) : Built VNode := do
  let props ← assignments [] tag.items
  match ← buildContent tag children with
  | .none => return .leaf tag.name props
  | .text run => return .labelled tag.name props run
  | .nodes children => return .parent tag.name props children

/-- A place for a slot. -/
def buildOutlet (tag : Tag) (children : List Sibling) : Built VNode := do
  let name := keyValue? "name".toList "default".toList tag.items
  let props ← assignments ["name".toList] tag.items
  let fallback ← buildSiblings children
  return .outlet (name.getD (.literal "default".toList)) props fallback

/-! ## Components -/

/-- The slot that a template with a slot's directive is. -/
def buildSlot (d : Directive) (tag : Tag) (content : List Text → Built (List VNode)) :
    Built (Slot VNode) := do
  refuseDynamic tag.items
  let children ← content []
  return ⟨d.arg.getD "default".toList, trim (d.exp.getD []), children, false⟩

/-- The slot that a child is, if it is one of its own. -/
def namedSlot? (child : Sibling) : Option (Built (Slot VNode)) :=
  match child, slotDirective? child with
  | .element tag _ _ content, some d => some (buildSlot d tag content)
  | _, _ => none

/-- The slot of what stands in a component by itself, if that is more than white space. -/
def implicitSlot? (params : Text) (children : List Sibling) : Option (Built (Slot VNode)) :=
  if children.all Sibling.isBlank then none
  else some do
    let nodes ← buildSiblings children
    return ⟨"default".toList, params, nodes, true⟩

/-- The slots of a component. -/
def buildSlots (tag : Tag) (children : List Sibling) : Built (List (Slot VNode)) :=
  match tag.directive? "slot".toList with
  | some d => (implicitSlot? (trim (d.exp.getD [])) children).toList.mapM id
  | none =>
    let rest := children.filter fun c => (slotDirective? c).isNone
    (children.filterMap namedSlot? ++ (implicitSlot? [] rest).toList).mapM id

/-- What a component node is made from. -/
def buildTarget (tag : Tag) (span : Span) : Built Target :=
  if tag.name = "component".toList then
    match keyValue? "is".toList [] tag.items with
    | some value => .ok (.dynamic value)
    | none => refuse .missingTarget span
  else .ok (.named tag.name)

/-- A component. -/
def buildComponent (tag : Tag) (span : Span) (children : List Sibling) : Built VNode := do
  let target ← buildTarget tag span
  let props ← assignments ["is".toList] tag.items
  let slots ← buildSlots tag children
  return .component target props slots

/-! ## Elements -/

/-- An element, without regard to a loop. -/
def buildPlain (tag : Tag) (span : Span) (children : List Sibling) : Built VNode :=
  match tag.kind with
  | .template => (buildSiblings children).map .fragment
  | .outlet => buildOutlet tag children
  | .component => buildComponent tag span children
  | .native => buildNative tag children

/-- An element, once for each item if it has a loop. -/
def buildElement (tag : Tag) (span : Span) (children : List Sibling) : Built VNode := do
  refuseDynamic tag.items
  match tag.directive? "for".toList with
  | none => buildPlain tag span children
  | some d =>
    let exp ← required d
    match readLoop? exp with
    | none => refuse (.invalidLoop exp) d.span
    | some (names, source) =>
      let item ← buildPlain tag span children
      return .list source names item

mutual

/-- A node as its parent sees it. -/
def siblingOf : Node → Sibling
  | .element tag children span =>
    let inner := siblingsOf children
    .element tag span (fun _ => buildElement tag span inner) fun _ => buildSiblings inner
  | .text content _ => .text content
  | .interpolation exp _ => .interpolation exp

/-- Nodes as their parent sees them. -/
def siblingsOf : List Node → List Sibling
  | [] => []
  | node :: nodes => siblingOf node :: siblingsOf nodes

end

/-- The code of a template, every expression as it stands. -/
def generate (mode : Mode) (nodes : List Node) : Built RenderCode :=
  (buildSiblings (siblingsOf nodes)).map (RenderCode.ofRoots mode)

end ModuleServer.Render.Verbatim
