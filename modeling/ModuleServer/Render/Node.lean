import ModuleServer.Render.Props

/-!
# Virtual nodes

What a render function returns, as a tree: elements and components with their props and content,
texts, places for slots, loops, and conditional chains. The code of a render function is this tree
printed; the helpers and the components that it names are read off it.

* `VNode.print` writes the code of a node that stands at a depth of indentation.
* `VNode.helpers` and `VNode.components` collect what the code refers to.
-/

namespace ModuleServer.Render

open Text

/-- A part of a text. -/
inductive TextPart where
  /-- A text as it stands. -/
  | literal (text : Text)
  /-- The value of an expression, as text. -/
  | shown (exp : Text)
deriving DecidableEq, Repr

/-- What a component node is made from. -/
inductive Target where
  /-- The component of a name. -/
  | named (name : Text)
  /-- The component that a value tells. -/
  | dynamic (value : Value)
deriving DecidableEq, Repr

/-- Nodes that are passed to a component under a name. -/
structure Slot (α : Type) where
  /-- Name of the slot. -/
  name : Text
  /-- Parameters, as written. -/
  params : Text
  /-- The nodes. -/
  children : List α
  /-- Whether the slot holds what stands in the component without a slot of its own. Such a slot is
  built behind all others and written before them. -/
  implicit : Bool

/-- A virtual node. -/
inductive VNode where
  /-- A text. -/
  | text (run : List TextPart)
  /-- A native element without content. -/
  | leaf (tag : Text) (props : List Assignment)
  /-- A native element that holds a text. -/
  | labelled (tag : Text) (props : List Assignment) (run : List TextPart)
  /-- A native element that holds nodes. -/
  | parent (tag : Text) (props : List Assignment) (children : List VNode)
  /-- A component. -/
  | component (target : Target) (props : List Assignment) (slots : List (Slot VNode))
  /-- A place for what is passed under a name, with what is shown if nothing is. -/
  | outlet (name : Value) (props : List Assignment) (fallback : List VNode)
  /-- Nodes without an element around them. -/
  | fragment (children : List VNode)
  /-- A node for each item of a source. -/
  | list (source params : Text) (item : VNode)
  /-- A conditional chain. -/
  | chain (body : VNode)
  /-- One of two nodes, inside a chain. -/
  | choice (test : Text) (yes no : VNode)
  /-- What a chain shows if no condition holds. -/
  | hidden

/-! ## Texts -/

/-- The code of a part of a text. -/
def TextPart.print : TextPart → Text
  | .literal t => Script.quote t
  | .shown exp => call Helper.toDisplayString.localName [exp]

/-- The helpers of a part of a text. -/
def TextPart.helpers : TextPart → List Helper
  | .literal _ => []
  | .shown _ => [.toDisplayString]

/-- The code of a text. -/
def printRun (run : List TextPart) : Text :=
  joined [' ', '+', ' '] (run.map TextPart.print)

/-! ## Components -/

/-- The variable that holds the component of a name. -/
def componentVariable (name : Text) : Text :=
  "_component_".toList ++ name.map fun c => if c.isAlphanum || c = '$' then c else '_'

/-- The code of a component's target. -/
def Target.print : Target → Text
  | .named name => componentVariable name
  | .dynamic value => call Helper.resolveDynamicComponent.localName [value.print]

/-- The helpers of a component's target. -/
def Target.helpers : Target → List Helper
  | .named _ => [.resolveComponent]
  | .dynamic _ => [.resolveDynamicComponent]

/-- The name of a component's target, if it has one. -/
def Target.components : Target → List Text
  | .named name => [name]
  | .dynamic _ => []

/-! ## Writing nodes -/

/-- Nodes as an array. -/
def array (depth : Nat) (items : List Text) : Text :=
  if items.isEmpty then ['[', ']'] else block '[' ']' depth items

/-- A node with its props and content, of which what is missing at the end is left out. -/
def create (target : Text) (props content : Option Text) : Text :=
  call Helper.createVNode.localName <|
    match props, content with
    | none, none => [target]
    | some props, none => [target, props]
    | props, some content => [target, props.getD "null".toList, content]

/-- A node for a list of nodes. -/
def group (content : Text) : Text :=
  create Helper.fragment.localName none (some content)

/-- The entries of a slots object, those of implicit slots first. -/
def orderSlots (entries : List (Bool × Text)) : List Text :=
  (entries.filter (·.1)).map (·.2) ++ (entries.filter (!·.1)).map (·.2)

/-- The slots object of a component. -/
def slotsObject (depth : Nat) (entries : List (Bool × Text)) : Option Text :=
  if entries.isEmpty then none
  else some (block '{' '}' depth (orderSlots entries ++ ["_: 1 /* STABLE */".toList]))

mutual

/-- The code of a node at a depth of indentation. -/
def VNode.print (depth : Nat) : VNode → Text
  | .text run => call Helper.createTextVNode.localName [printRun run]
  | .leaf tag props => create (Script.quote tag) (Assignment.print? depth props) none
  | .labelled tag props run =>
    create (Script.quote tag) (Assignment.print? depth props) (some (printRun run))
  | .parent tag props children =>
    create (Script.quote tag) (Assignment.print? depth props)
      (some (array depth (VNode.printAll depth children)))
  | .component target props slots =>
    create target.print (Assignment.print? depth props)
      (slotsObject depth (VNode.printSlots (depth + 1) slots))
  | .outlet name props fallback =>
    let props := Assignment.print? depth props
    call Helper.renderSlot.localName <| ["_ctx.$slots".toList, name.print] ++
      if fallback.isEmpty then props.toList
      else [props.getD ['{', '}'],
        "() => ".toList ++ array depth (VNode.printAll depth fallback)]
  | .fragment children => group (array depth (VNode.printAll depth children))
  | .list source params item =>
    group <| call Helper.renderList.localName
      [source, ['('] ++ params ++ ") => \x7b\n".toList ++ indent (depth + 1) ++ "return ".toList ++
        VNode.print (depth + 1) item ++ ['\n'] ++ indent depth ++ ['}']]
  | .chain body => VNode.print (depth + 1) body
  | .choice test yes no =>
    ['('] ++ test ++ [')', '\n'] ++ indent depth ++ ['?', ' '] ++ VNode.print depth yes ++ ['\n'] ++
      indent depth ++ [':', ' '] ++ VNode.print depth no
  | .hidden => call Helper.createCommentVNode.localName ["\"v-if\"".toList, "true".toList]

/-- The codes of nodes. -/
def VNode.printAll (depth : Nat) : List VNode → List Text
  | [] => []
  | v :: vs => VNode.print depth v :: VNode.printAll depth vs

/-- The entries of slots, each marked if its slot is implicit. -/
def VNode.printSlots (depth : Nat) : List (Slot VNode) → List (Bool × Text)
  | [] => []
  | ⟨name, params, children, implicit⟩ :: slots =>
    (implicit, Script.key name ++ [':', ' '] ++ call Helper.withCtx.localName
      [['('] ++ params ++ ") => ".toList ++ array depth (VNode.printAll depth children)]) ::
        VNode.printSlots depth slots

end

/-! ## What the code refers to -/

mutual

/-- The helpers that a node calls. -/
def VNode.helpers : VNode → List Helper
  | .text run => .createTextVNode :: run.flatMap TextPart.helpers
  | .leaf _ props => .createVNode :: Assignment.helpers props
  | .labelled _ props run =>
    .createVNode :: (Assignment.helpers props ++ run.flatMap TextPart.helpers)
  | .parent _ props children =>
    .createVNode :: (Assignment.helpers props ++ VNode.helpersAll children)
  | .component target props slots =>
    .createVNode :: (target.helpers ++ Assignment.helpers props ++ VNode.helpersSlots slots)
  | .outlet name props fallback =>
    .renderSlot :: (name.helpers ++ Assignment.helpers props ++ VNode.helpersAll fallback)
  | .fragment children => .fragment :: .createVNode :: VNode.helpersAll children
  | .list _ _ item => .fragment :: .renderList :: .createVNode :: VNode.helpers item
  | .chain body => VNode.helpers body
  | .choice _ yes no => VNode.helpers no ++ VNode.helpers yes
  | .hidden => [.createCommentVNode]

/-- The helpers that nodes call. -/
def VNode.helpersAll : List VNode → List Helper
  | [] => []
  | v :: vs => VNode.helpers v ++ VNode.helpersAll vs

/-- The helpers that slots call. -/
def VNode.helpersSlots : List (Slot VNode) → List Helper
  | [] => []
  | ⟨_, _, children, _⟩ :: slots =>
    .withCtx :: (VNode.helpersAll children ++ VNode.helpersSlots slots)

end

mutual

/-- The names of the components in a node, in the order in which they are met: what a chain shows
last comes first. -/
def VNode.components : VNode → List Text
  | .text _ => []
  | .leaf _ _ => []
  | .labelled _ _ _ => []
  | .parent _ _ children => VNode.componentsAll children
  | .component target _ slots => target.components ++ VNode.componentsSlots slots
  | .outlet _ _ fallback => VNode.componentsAll fallback
  | .fragment children => VNode.componentsAll children
  | .list _ _ item => VNode.components item
  | .chain body => VNode.components body
  | .choice _ yes no => VNode.components no ++ VNode.components yes
  | .hidden => []

/-- The names of the components in nodes. -/
def VNode.componentsAll : List VNode → List Text
  | [] => []
  | v :: vs => VNode.components v ++ VNode.componentsAll vs

/-- The names of the components in slots. -/
def VNode.componentsSlots : List (Slot VNode) → List Text
  | [] => []
  | ⟨_, _, children, _⟩ :: slots => VNode.componentsAll children ++ VNode.componentsSlots slots

end

end ModuleServer.Render
