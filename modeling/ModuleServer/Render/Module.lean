import ModuleServer.Render.Build
import ModuleServer.Template.Tree

/-!
# Render modules

The code of a template: the helpers that it uses brought in, the components that it names resolved,
and the render function. It is a module of its own, or the body of a function that finds the runtime
in a global variable.

* `compile` goes from markup to code.
-/

namespace ModuleServer.Render

open Text Template

/-- The form of the code. -/
inductive Mode where
  /-- A module that imports the runtime. -/
  | module
  /-- A function body that takes the runtime from a global variable. -/
  | function
deriving DecidableEq, Repr

/-- The code of a template. -/
structure RenderCode where
  /-- The code itself. -/
  code : Text
  /-- The helpers that it uses, in the order of import. -/
  helpers : List Helper
  /-- The components that it resolves by name, in the order in which they were met. -/
  components : List Text
deriving DecidableEq, Repr

/-- Module that the runtime is imported from. -/
def runtimeModule : Text := "vue".toList

/-- The node that several roots make, or nothing for none. -/
def printRoots (roots : List VNode) : Text :=
  match roots with
  | [] => "null".toList
  | [root] => root.print 1
  | _ => group (array 1 (VNode.printAll 1 roots))

/-- The helpers of the roots of a template. -/
def rootHelpers (roots : List VNode) : List Helper :=
  (if roots.length ≤ 1 then [] else [.fragment, .createVNode]) ++ VNode.helpersAll roots

/-- The line that resolves a component. -/
def componentLine (name : Text) : Text :=
  "  const ".toList ++ componentVariable name ++ " = ".toList ++
    call Helper.resolveComponent.localName [Script.quote name] ++ ['\n']

/-- The lines of the render function. -/
def functionBody (components : List Text) (root : Text) : Text :=
  components.flatMap componentLine ++ (if components.isEmpty then [] else ['\n']) ++
    "  return ".toList ++ root ++ ['\n']

/-- The line that brings in the helpers, and the blank line behind it. -/
def helperLine (mode : Mode) (helpers : List Helper) : Text :=
  if helpers.isEmpty then []
  else
    match mode with
    | .module =>
      "import \x7b ".toList ++
        joined [',', ' '] (helpers.map fun h => h.name ++ " as ".toList ++ h.localName) ++
        " \x7d from ".toList ++ Script.quote runtimeModule ++ ['\n', '\n']
    | .function =>
      "const \x7b ".toList ++
        joined [',', ' '] (helpers.map fun h => h.name ++ [':', ' '] ++ h.localName) ++
        " \x7d = Vue".toList ++ ['\n', '\n']

/-- The first word of the render function. -/
def functionWord : Mode → Text
  | .module => "export".toList
  | .function => "return".toList

/-- The code of virtual nodes. -/
def RenderCode.ofRoots (mode : Mode) (roots : List VNode) : RenderCode :=
  let helpers := Helper.ordered (rootHelpers roots)
  let components := (VNode.componentsAll roots).eraseDups
  let function := functionWord mode ++ " function render(_ctx, _cache) \x7b\n".toList ++
    functionBody components (printRoots roots) ++ ['}', '\n']
  ⟨helperLine mode helpers ++ function, helpers, components⟩

/-- The code of a template. -/
def generate (mode : Mode) (nodes : List Node) : Built RenderCode :=
  (buildTemplate nodes).map (RenderCode.ofRoots mode)

/-- The code of markup. -/
def compile (mode : Mode) (markup : Text) : Built RenderCode :=
  match parse markup with
  | .ok nodes => generate mode nodes
  | .error e => Outcome.fail e

end ModuleServer.Render
