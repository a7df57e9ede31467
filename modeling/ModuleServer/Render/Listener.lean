import ModuleServer.Render.Props
import ModuleServer.Expression.Scope
import ModuleServer.Expression.Shape
import ModuleServer.Outcome
import ModuleServer.Template.Fault
import ModuleServer.Template.Node

/-!
# From directives to props

How the attributes and directives of an opening tag become contributions to its props. Expressions
are put into the context on the way (`inContext`); names that are bound around the element are
its locals.

* `listen` builds a listener, `assign` the contribution of one item, `assignments` those of a tag.
-/

namespace ModuleServer.Render

open Text Template

/-- A result of building, or the error that stops it. -/
abbrev Built (α : Type) := Outcome Template.Error α

/-- Stops with a fault at a place. -/
def refuse {α : Type} (fault : Fault) (span : Span) : Built α :=
  Outcome.fail ⟨fault, span⟩

/-- An expression with its free names in the context. -/
def inContext (locals : List Text) (exp : Text) : Built Text :=
  Outcome.ofCut (Expression.prefixNames? locals exp)

/-- The expression of a directive that needs one. -/
def required (d : Directive) : Built Text :=
  match d.exp with
  | some exp => .ok exp
  | none => refuse (.missingExpression d.name) d.span

/-! ## Names of events and keys -/

/-- The text with every hyphen dropped and the letter behind it in upper case. -/
def camelizeFrom (afterHyphen : Bool) : Text → Text
  | [] => []
  | c :: t =>
    if c = '-' then camelizeFrom true t
    else (if afterHyphen then c.toUpper else c) :: camelizeFrom false t

/-- The text with hyphens replaced by upper case. -/
def camelize (t : Text) : Text :=
  camelizeFrom false t

/-- The text with its first letter in upper case. -/
def capitalize : Text → Text
  | [] => []
  | c :: t => c.toUpper :: t

/-- The key of a listener for an event. -/
def listenerKey (event : Text) : Text :=
  'o' :: 'n' :: capitalize (camelize event)

/-- Modifiers that guard a listener. -/
def guardModifiers : List Text :=
  ["stop", "prevent", "self", "ctrl", "shift", "alt", "meta", "exact", "left", "middle",
   "right"].map String.toList

/-- Modifiers that are part of a listener's key. -/
def optionModifiers : List Text :=
  ["once", "capture", "passive"].map String.toList

/-! ## Contributions -/

/-- What a listener does, given its expression. -/
def react (locals : List Text) (exp : Option Text) : Built Reaction :=
  match exp.map trim with
  | none => .ok .nothing
  | some [] => .ok .nothing
  | some (c :: t) =>
    if Expression.isMemberPath (c :: t) || Expression.isFunction (c :: t) then
      (inContext locals (c :: t)).map .function
    else (inContext ("$event".toList :: locals) (c :: t)).map .evaluate

/-- The listener of a directive for an event. -/
def listen (locals : List Text) (event : Text) (d : Directive) : Built Assignment := do
  let options := d.modifiers.filter optionModifiers.contains
  let others := d.modifiers.filter fun m => !optionModifiers.contains m
  let reaction ← react locals d.exp
  return .append (listenerKey event ++ options.flatMap capitalize)
    (.listener reaction (others.filter guardModifiers.contains)
      (others.filter fun m => !guardModifiers.contains m))

/-- The binding of a directive to a key, the name itself being its expression if it has none. -/
def bind (locals : List Text) (arg : Text) (d : Directive) : Built Assignment := do
  let key := if d.modifiers.contains "camel".toList then camelize arg else arg
  let exp ← inContext locals (d.exp.getD (camelize arg))
  return .set key (.expression exp)

/-- Directives that contribute nothing to the props. -/
def structuralDirectives : List Text :=
  ["if", "else-if", "else", "for", "slot", "text", "cloak"].map String.toList

/-- The contribution of a directive, if it has one. Bindings of the keys in `skipped` have none. -/
def assignDirective (locals skipped : List Text) (d : Directive) : Built (Option Assignment) := do
  if d.name = "bind".toList then
    match d.arg with
    | some arg => if skipped.contains arg then return none else return some (← bind locals arg d)
    | none =>
      let exp ← required d
      return some (.spread (← inContext locals exp))
  else if d.name = "on".toList then
    match d.arg with
    | some event => return some (← listen locals event d)
    | none => refuse .missingEvent d.span
  else if d.name = "html".toList then
    let exp ← required d
    return some (.append "innerHTML".toList (.expression (← inContext locals exp)))
  else if structuralDirectives.contains d.name then return none
  else refuse (.unsupportedDirective d.name) d.span

/-- The contribution of an item, if it has one. -/
def assign (locals skipped : List Text) : Item → Built (Option Assignment)
  | .attribute a =>
    if skipped.contains a.name then .ok none
    else .ok (some (.set a.name (.literal (a.value.getD []))))
  | .directive d => assignDirective locals skipped d

/-- The contributions of items, in order. -/
def assignments (locals skipped : List Text) : List Item → Built (List Assignment)
  | [] => .ok []
  | item :: items => do
    let first ← assign locals skipped item
    let others ← assignments locals skipped items
    return first.toList ++ others

end ModuleServer.Render
