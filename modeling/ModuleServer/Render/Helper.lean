import ModuleServer.Text.Basic

/-!
# Runtime helpers

The functions of the framework that a render function calls. A render module imports those it uses,
in the order of `Helper.all`, each under its name with an underscore in front.
-/

namespace ModuleServer.Render

/-- A function of the framework's runtime. -/
inductive Helper where
  | fragment
  | resolveComponent
  | resolveDynamicComponent
  | renderList
  | renderSlot
  | withCtx
  | toDisplayString
  | mergeProps
  | normalizeClass
  | normalizeStyle
  | withModifiers
  | withKeys
  | createTextVNode
  | createCommentVNode
  | createVNode
deriving DecidableEq, Repr

namespace Helper

/-- Every helper, in the order of import. -/
def all : List Helper :=
  [fragment, resolveComponent, resolveDynamicComponent, renderList, renderSlot, withCtx,
   toDisplayString, mergeProps, normalizeClass, normalizeStyle, withModifiers, withKeys,
   createTextVNode, createCommentVNode, createVNode]

theorem mem_all (h : Helper) : h ∈ all := by
  cases h <;> decide

/-- Name in the runtime. -/
def name : Helper → Text
  | fragment => "Fragment".toList
  | resolveComponent => "resolveComponent".toList
  | resolveDynamicComponent => "resolveDynamicComponent".toList
  | renderList => "renderList".toList
  | renderSlot => "renderSlot".toList
  | withCtx => "withCtx".toList
  | toDisplayString => "toDisplayString".toList
  | mergeProps => "mergeProps".toList
  | normalizeClass => "normalizeClass".toList
  | normalizeStyle => "normalizeStyle".toList
  | withModifiers => "withModifiers".toList
  | withKeys => "withKeys".toList
  | createTextVNode => "createTextVNode".toList
  | createCommentVNode => "createCommentVNode".toList
  | createVNode => "createVNode".toList

/-- Name in the code of a render module. -/
def localName (h : Helper) : Text :=
  '_' :: h.name

/-- The helpers that occur in a list, each once, in the order of import. -/
def ordered (used : List Helper) : List Helper :=
  all.filter used.contains

theorem mem_ordered {used : List Helper} {h : Helper} : h ∈ ordered used ↔ h ∈ used := by
  simp [ordered, mem_all]

end Helper

end ModuleServer.Render
