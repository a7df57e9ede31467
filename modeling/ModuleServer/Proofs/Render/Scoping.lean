import ModuleServer.Proofs.Render.Grouping

/-!
# Scoping is lexical

The code of a template is the code that a generator without scopes gives for the resolved template
(`generate_resolve`): what is bound where an element stands, in its own props, in its loop's source
and conditions, and in its children, is what the tree says.

Every kind of element is built alike if its children are (`buildElement_resolve`); the rest is
induction on the tree, with the names that are bound around a node.
-/

namespace ModuleServer.Render.Lexical

open Text
open List (Forall₂)

section Elements

variable {bound : List Text} {tag : Tag} {span : Span} {children children' : List Sibling}

/-! ## Native elements and outlets -/

/-- The names that are bound inside of a tag's element. -/
def Tag.inner (tag : Tag) (bound : List Text) : List Text :=
  tag.loopNames ++ bound

theorem buildContent_resolve (h : Forall₂ (Alike false (tag.inner bound)) children children') :
    buildContent (tag.inner bound) tag.plain children =
      Verbatim.buildContent (tag.resolve bound).plain children' := by
  have hall : (children.all fun c => !c.isElement) = children'.all fun c => !c.isElement := by
    induction h with
    | nil => rfl
    | cons hs _ ih => rw [List.all_cons, List.all_cons, ih, hs.isElement_eq]
  have hempty : children.isEmpty = children'.isEmpty := by
    cases h <;> rfl
  rw [buildContent, Verbatim.buildContent]
  rcases tag.directive?_agree bound "text".toList (by decide) with
    ⟨htext, htext'⟩ | ⟨d, d', htext, htext', hagree⟩
  · rw [htext, htext']
    dsimp only
    rw [tag.has_resolve, hempty, hall, textRun_alike h, buildSiblings_alike h]
    rfl
  · have hinner : Agree (tag.inner bound) d d' := hagree
    rw [htext, htext']
    dsimp only
    rcases hinner.required_cases with ⟨e, he, he'⟩ | ⟨p, hp, hp'⟩
    · rw [he, he']
      rfl
    · rw [hp, hp']
      change (inContext (tag.inner bound) p.text >>= _) = _
      rw [inContext_path]
      rfl

theorem buildNative_resolve (h : Forall₂ (Alike false (tag.inner bound)) children children') :
    buildNative (tag.inner bound) tag.plain children =
      Verbatim.buildNative (tag.resolve bound).plain children' := by
  have hprops : assignments (tag.inner bound) [] tag.plain.items =
      Verbatim.assignments [] (tag.resolve bound).plain.items := assignments_resolve ..
  rw [buildNative, Verbatim.buildNative, hprops, buildContent_resolve h]
  rfl

theorem buildOutlet_resolve (h : Forall₂ (Alike false (tag.inner bound)) children children') :
    buildOutlet (tag.inner bound) tag.plain children =
      Verbatim.buildOutlet (tag.resolve bound).plain children' := by
  have hname : keyValue? (tag.inner bound) "name".toList "default".toList tag.plain.items =
      .ok (Verbatim.keyValue? "name".toList "default".toList (tag.resolve bound).plain.items) :=
    keyValue?_resolve ..
  have hprops : assignments (tag.inner bound) ["name".toList] tag.plain.items =
      Verbatim.assignments ["name".toList] (tag.resolve bound).plain.items := assignments_resolve ..
  rw [buildOutlet, Verbatim.buildOutlet, hname, hprops, buildSiblings_alike h]
  rfl

/-! ## Components -/

/-- A tag without a slot binds no parameters; one with a slot binds those that are read in its
expression, and resolving leaves them alone. -/
theorem Tag.slot_cases (tag : Tag) (bound : List Text) :
    (tag.hasSlot = false ∧ tag.slotNames = [] ∧ tag.plain.directive? "slot".toList = none ∧
        (tag.resolve bound).plain.directive? "slot".toList = none) ∨
      ∃ d, tag.hasSlot = true ∧ tag.plain.directive? "slot".toList = some d ∧
        (tag.resolve bound).plain.directive? "slot".toList = some d ∧
        Expression.bindingNames (trim (d.exp.getD [])) = tag.slotNames := by
  rw [Tag.directive?_plain, Tag.directive?_plain, Tag.directive?_resolve, Tag.hasSlot,
    Tag.slotNames, Tag.findSome?_slot]
  cases hd : tag.directive? "slot".toList with
  | none => exact .inl ⟨rfl, rfl, rfl, rfl⟩
  | some d =>
    obtain ⟨action, arg, modifiers, span⟩ := d
    have haction : action.slot?.isSome := by
      rw [Action.isSome_slot?, decide_eq_true_eq]
      exact (tag.name_of_directive? hd)
    cases action with
    | slot params => exact .inr ⟨_, rfl, rfl, rfl, bindingNames_params params⟩
    | _ => exact absurd haction (by simp [Action.slot?])

theorem implicitSlot?_resolve {params : Text}
    (h : Forall₂ (Alike false (slotLocals bound params)) children children') :
    implicitSlot? bound params children = Verbatim.implicitSlot? params children' := by
  have hall : children.all Sibling.isBlank = children'.all Sibling.isBlank := by
    induction h with
    | nil => rfl
    | cons hs _ ih => rw [List.all_cons, List.all_cons, ih, hs.isBlank_eq]
  rw [implicitSlot?, Verbatim.implicitSlot?, hall, buildSiblings_alike h]

theorem buildSlot_resolve {content content' : List Text → Built (List VNode)}
    {d : Template.Directive} (hd : Expression.bindingNames (trim (d.exp.getD [])) = tag.slotNames)
    (h : content (tag.slotNames ++ bound) = content' []) :
    buildSlot bound d tag.plain content =
      Verbatim.buildSlot d (tag.resolve bound).plain content' := by
  have hdynamic : refuseDynamic tag.plain.items =
      refuseDynamic (tag.resolve bound).plain.items := (refuseDynamic_resolve ..).symm
  have hlocals : slotLocals bound (trim (d.exp.getD [])) = tag.slotNames ++ bound := by
    rw [← hd]
    rfl
  simp only [buildSlot, Verbatim.buildSlot, hlocals, h, hdynamic]

/-- An element that is built itself is no slot, and neither is that of the resolved tree. -/
theorem slotDirective?_of_isPlain (hplain : tag.isPlain) (bound : List Text) (span : Span)
    (build build' : List Text → Built VNode) (content content' : List Text → Built (List VNode)) :
    slotDirective? (.element tag.plain span build content) = none ∧
      slotDirective? (.element (tag.resolve bound).plain span build' content') = none := by
  change (if tag.kind = .template then tag.plain.directive? "slot".toList else none) = none ∧
    (if tag.kind = .template then (tag.resolve bound).plain.directive? "slot".toList else none) =
      none
  rcases tag.slot_cases bound with ⟨-, -, hnone, hnone'⟩ | ⟨d, hslot, -⟩
  · rw [hnone, hnone', ite_self]
    exact ⟨rfl, rfl⟩
  · have hcomponent : tag.kind = .component := by simpa [Tag.isPlain, hslot] using hplain
    have hkind : tag.kind ≠ .template := by simp [hcomponent]
    rw [if_neg hkind, if_neg hkind]
    exact ⟨rfl, rfl⟩

/-- A template with a slot is one slot in both trees. -/
theorem slotDirective?_of_isSlotTemplate (hslot : tag.isSlotTemplate) (bound : List Text)
    (span : Span) (build build' : List Text → Built VNode)
    (content content' : List Text → Built (List VNode)) :
    ∃ d, slotDirective? (.element tag.plain span build content) = some d ∧
      slotDirective? (.element (tag.resolve bound).plain span build' content') = some d ∧
      Expression.bindingNames (trim (d.exp.getD [])) = tag.slotNames := by
  simp only [Tag.isSlotTemplate, Bool.and_eq_true, decide_eq_true_eq] at hslot
  obtain ⟨⟨hkind, hhas⟩, -⟩ := hslot
  rcases tag.slot_cases bound with ⟨hnone, -⟩ | ⟨d, -, hd, hd', hnames⟩
  · simp [hnone] at hhas
  · refine ⟨d, ?_, ?_, hnames⟩
    · rw [← hd]
      exact if_pos hkind
    · rw [← hd']
      exact if_pos hkind

/-- Of what stands right inside a component, the templates with a slot are passed as such, and the
rest are siblings that are built themselves. -/
theorem children_resolve (h : Forall₂ (Alike true bound) children children') :
    children.filterMap (namedSlot? bound) = children'.filterMap Verbatim.namedSlot? ∧
      Forall₂ (Alike false bound) (children.filter fun c => (slotDirective? c).isNone)
        (children'.filter fun c => (slotDirective? c).isNone) := by
  induction h with
  | nil => exact ⟨rfl, .nil⟩
  | cons hs _ ih =>
    cases hs with
    | text content => exact ⟨ih.1, .cons (.text content) ih.2⟩
    | interpolation path => exact ⟨ih.1, .cons (.interpolation path) ih.2⟩
    | @element tag span build content build' content' hplain hbuild =>
      obtain ⟨hnone, hnone'⟩ := slotDirective?_of_isPlain hplain bound span build build' content
        content'
      simp only [List.filterMap_cons, List.filter_cons, namedSlot?, Verbatim.namedSlot?, hnone,
        hnone', Option.isNone_none, if_true]
      exact ⟨ih.1, .cons (.element hplain hbuild) ih.2⟩
    | @slot tag span build content build' content' hin hslot hcontent =>
      obtain ⟨d, hd, hd', hnames⟩ :=
        slotDirective?_of_isSlotTemplate hslot bound span build build' content content'
      simp only [List.filterMap_cons, List.filter_cons, namedSlot?, Verbatim.namedSlot?, hd, hd',
        Option.isNone_some, buildSlot_resolve hnames hcontent, ih.1]
      exact ⟨trivial, ih.2⟩

theorem buildSlots_resolve
    (h : Forall₂ (Alike (!tag.hasSlot) (tag.slotNames ++ tag.inner bound)) children children') :
    buildSlots (tag.inner bound) tag.plain children =
      Verbatim.buildSlots (tag.resolve bound).plain children' := by
  rw [buildSlots, Verbatim.buildSlots]
  rcases tag.slot_cases bound with ⟨hslot, hnames, hd, hd'⟩ | ⟨d, hslot, hd, hd', hnames⟩
  · rw [hslot, hnames] at h
    obtain ⟨hnamed, hrest⟩ := children_resolve h
    have hlocals : slotLocals (tag.inner bound) [] = [] ++ tag.inner bound := by
      simp [slotLocals, Expression.bindingNames]
    rw [← hlocals] at hrest
    rw [hd, hd']
    dsimp only
    rw [implicitSlot?_resolve hrest]
    exact congrArg (fun named => List.mapM id (named ++ _)) hnamed
  · rw [hslot] at h
    rw [hd, hd']
    dsimp only
    rw [implicitSlot?_resolve]
    rw [slotLocals, hnames]
    exact h

theorem buildComponent_resolve
    (h : Forall₂ (Alike (!tag.hasSlot) (tag.slotNames ++ tag.inner bound)) children children') :
    buildComponent (tag.inner bound) tag.plain span children =
      Verbatim.buildComponent (tag.resolve bound).plain span children' := by
  have hvalue : keyValue? (tag.inner bound) "is".toList [] tag.plain.items =
      .ok (Verbatim.keyValue? "is".toList [] (tag.resolve bound).plain.items) :=
    keyValue?_resolve ..
  have htarget : buildTarget (tag.inner bound) tag.plain span =
      Verbatim.buildTarget (tag.resolve bound).plain span := by
    rw [buildTarget, Verbatim.buildTarget, hvalue]
    rfl
  have hprops : assignments (tag.inner bound) ["is".toList] tag.plain.items =
      Verbatim.assignments ["is".toList] (tag.resolve bound).plain.items := assignments_resolve ..
  rw [buildComponent, Verbatim.buildComponent, htarget, hprops, buildSlots_resolve h]

/-! ## Elements -/

theorem buildPlain_resolve (hplain : tag.isPlain)
    (h : Forall₂ (Alike tag.admitsSlots (tag.slotNames ++ tag.inner bound)) children children') :
    buildPlain tag.plain span children (tag.inner bound) =
      Verbatim.buildPlain (tag.resolve bound).plain span children' := by
  rw [buildPlain, Verbatim.buildPlain]
  have hplainKind : tag.plain.kind = tag.kind := rfl
  have hresolveKind : (tag.resolve bound).plain.kind = tag.kind := rfl
  rw [hplainKind, hresolveKind]
  by_cases hkind : tag.kind = .component
  · rw [Tag.admitsSlots, decide_eq_true hkind, Bool.true_and] at h
    rw [hkind]
    exact buildComponent_resolve h
  · -- without a slot the children are siblings that are built themselves
    rcases tag.slot_cases bound with ⟨hslot, hnames, -⟩ | ⟨d, hslot, -⟩
    · rw [Tag.admitsSlots, decide_eq_false hkind, Bool.false_and, hnames] at h
      have hchildren : Forall₂ (Alike false (tag.inner bound)) children children' := h
      cases hkind' : tag.kind with
      | template => exact congrArg (Except.map VNode.fragment) (buildSiblings_alike hchildren)
      | outlet => exact buildOutlet_resolve hchildren
      | component => exact absurd hkind' hkind
      | native => exact buildNative_resolve hchildren
    · simp [Tag.isPlain, hslot, hkind] at hplain

/-- A tag without a loop binds no names; one with a loop binds those of the loop, whose source is
resolved outside of it. -/
theorem Tag.loop_cases (tag : Tag) (bound : List Text) :
    (tag.loopNames = [] ∧ tag.plain.directive? "for".toList = none ∧
        (tag.resolve bound).plain.directive? "for".toList = none) ∨
      ∃ (l : Loop) (d d' : Template.Directive), tag.loopNames = l.names.names ∧
        tag.plain.directive? "for".toList = some d ∧
        (tag.resolve bound).plain.directive? "for".toList = some d' ∧ d.exp = some l.text ∧
        d'.exp = some { l with source := l.source.resolve bound }.text := by
  rw [Tag.directive?_plain, Tag.directive?_plain, Tag.directive?_resolve, Tag.loopNames,
    Tag.findSome?_loop]
  cases hd : tag.directive? "for".toList with
  | none => exact .inl ⟨rfl, rfl, rfl⟩
  | some d =>
    obtain ⟨action, arg, modifiers, span⟩ := d
    have haction : action.loop?.isSome := by
      rw [Action.isSome_loop?, decide_eq_true_eq]
      exact Tag.name_of_directive? hd
    cases action with
    | loop l => exact .inr ⟨l, _, _, rfl, rfl, rfl, rfl, rfl⟩
    | _ => exact absurd haction (by simp [Action.loop?])

/-- A template with a slot has no loop, and no slots of its own right inside. -/
theorem Tag.inner_of_isSlotTemplate (tag : Tag) (bound : List Text) (h : tag.isSlotTemplate) :
    tag.admitsSlots = false ∧ tag.inner bound = bound := by
  simp only [Tag.isSlotTemplate, Bool.and_eq_true, decide_eq_true_eq, Bool.not_eq_true',
    List.any_cons, Bool.or_eq_false_iff] at h
  obtain ⟨⟨hkind, -⟩, -, -, -, hloop, -⟩ := h
  refine ⟨by simp [Tag.admitsSlots, hkind], ?_⟩
  rcases tag.loop_cases bound with ⟨hnames, -⟩ | ⟨l, d, d', -, hd, -⟩
  · rw [Tag.inner, hnames, List.nil_append]
  · rw [Template.Tag.has, hd] at hloop
    exact Bool.noConfusion hloop

/-- An element is built where names are bound as the resolved element is by itself. -/
theorem buildElement_resolve (hplain : tag.isPlain)
    (h : Forall₂ (Alike tag.admitsSlots (tag.slotNames ++ tag.inner bound)) children children') :
    buildElement tag.plain span children bound =
      Verbatim.buildElement (tag.resolve bound).plain span children' := by
  have hdynamic : refuseDynamic tag.plain.items =
      refuseDynamic (tag.resolve bound).plain.items := (refuseDynamic_resolve ..).symm
  have hbuild : buildPlain tag.plain span children (tag.loopNames ++ bound) =
      Verbatim.buildPlain (tag.resolve bound).plain span children' :=
    buildPlain_resolve hplain h
  rw [buildElement, Verbatim.buildElement, hdynamic]
  refine bind_congr fun _ => ?_
  rcases tag.loop_cases bound with ⟨hnames, hd, hd'⟩ | ⟨l, d, d', hnames, hd, hd', hexp, hexp'⟩
  · rw [hnames] at hbuild
    rw [hd, hd']
    exact hbuild
  · rw [hd, hd']
    have hok : ∀ (t : Text) (f : Text → Built VNode), (Except.ok t >>= f) = f t := fun _ _ => rfl
    dsimp only
    rw [required, required, hexp, hexp']
    dsimp only
    rw [hok, hok, readLoop?_loop, readLoop?_loop]
    dsimp only
    rw [bindingNames_loop, ← hnames, hbuild]
    refine bind_congr fun item => ?_
    rw [inContext_path]
    rfl

end Elements

/-! ## Trees -/

mutual

/-- A node is alike the resolved node. -/
theorem alike_node : ∀ (node : Node) (inComponent : Bool) (bound : List Text),
    node.isProper inComponent →
    Alike inComponent bound (Sibling.ofNode node.plain)
      (Verbatim.siblingOf (node.resolve bound).plain)
  | .element tag children span, inComponent, bound, hproper => by
    rw [Node.isProper, Bool.and_eq_true, Bool.or_eq_true] at hproper
    obtain ⟨htag, hchildren⟩ := hproper
    have ih := alike_nodes children tag.admitsSlots (tag.slotNames ++ tag.inner bound) hchildren
    rcases htag with hplain | hslot
    · exact .element hplain (buildElement_resolve hplain ih)
    · rw [Bool.and_eq_true] at hslot
      obtain ⟨hin, hslot⟩ := hslot
      obtain ⟨hadmits, hinner⟩ := tag.inner_of_isSlotTemplate bound hslot
      rw [hadmits] at ih
      have hcontent := buildSiblings_alike ih
      exact .slot hin hslot ((congrArg (fun names => buildSiblings (tag.slotNames ++ names) _)
        hinner.symm).trans hcontent)
  | .text content span, inComponent, bound, _ => .text content
  | .interpolation path span, inComponent, bound, _ => .interpolation path

/-- Nodes are alike the resolved nodes. -/
theorem alike_nodes : ∀ (nodes : List Node) (inComponent : Bool) (bound : List Text),
    Node.isProperAll inComponent nodes →
    Forall₂ (Alike inComponent bound) (Sibling.ofNodes (Node.plainAll nodes))
      (Verbatim.siblingsOf (Node.plainAll (Node.resolveAll bound nodes)))
  | [], _, _, _ => .nil
  | node :: nodes, inComponent, bound, hproper => by
    rw [Node.isProperAll, Bool.and_eq_true] at hproper
    exact .cons (alike_node node inComponent bound hproper.1)
      (alike_nodes nodes inComponent bound hproper.2)

end

/-- The code of a template is what a generator that knows of no scopes gives for the template with
its paths resolved: a path is one of the context exactly if its head is no word of the language, no
allowed global, and not bound around it. -/
theorem generate_resolve (mode : Mode) (nodes : List Node) (h : Node.isProperAll false nodes) :
    generate mode (Node.plainAll nodes) =
      Verbatim.generate mode (Node.plainAll (Node.resolveAll [] nodes)) := by
  rw [generate, buildTemplate, buildSiblings_alike (alike_nodes nodes false [] h)]
  rfl

/-- A component with a condition, once for each row, and with a slot of its own in which the row is
another one. -/
def scopedTemplate : List Node :=
  let shown (head : Expression.Name) (members : List Expression.Name) : Node :=
    .interpolation ⟨head, members⟩ ⟨0, 0⟩
  let row : Binder := .mk (.mk "row".toList)
  let rows : Loop :=
    ⟨.indexed .none row .none .space (.mk (.mk "i".toList)) .none, false, ⟨.mk "rows".toList, []⟩⟩
  let params : Params := .pattern <|
    .more .space (.named (.mk "value".toList) .none .space row) .none <|
      .last .space (.shorthand (.mk (.mk "index".toList))) .space
  let cell : Node := .element
    ⟨"template".toList, .template, [.directive ⟨.slot params, some "cell".toList, [], ⟨0, 0⟩⟩]⟩
    [shown (.mk "row".toList) [.mk "text".toList], shown (.mk "i".toList) [],
      shown (.mk "Number".toList) [.mk "EPSILON".toList], shown (.mk "value".toList) []] ⟨0, 0⟩
  let row : Expression.Name := .mk "row".toList
  [.element
    ⟨"Rows".toList, .component,
      [.directive ⟨.loop rows, none, [], ⟨0, 0⟩⟩,
        .directive ⟨.other "if".toList (some ⟨row, [.mk "ok".toList]⟩), none, [], ⟨0, 0⟩⟩,
        .directive ⟨.bind ⟨row, [.mk "id".toList]⟩, some "key".toList, [], ⟨0, 0⟩⟩,
        .directive ⟨.other "on".toList (some ⟨.mk "pick".toList, []⟩), some "pick".toList, [],
          ⟨0, 0⟩⟩]⟩
    [cell, shown row []] ⟨0, 0⟩]

/-- The template with its paths resolved, as it is compiled. -/
def resolvedTemplate : List Template.Node :=
  let shown (exp : String) : Template.Node := .interpolation exp.toList ⟨0, 0⟩
  let directive (name : String) (arg : Option String) (exp : String) : Template.Item :=
    .directive ⟨name.toList, arg.map String.toList, some exp.toList, [], ⟨0, 0⟩⟩
  [.element
    ⟨"Rows".toList, .component,
      [directive "for" none "(row, i) in _ctx.rows", directive "if" none "_ctx.row.ok",
        directive "bind" (some "key") "row.id", directive "on" (some "pick") "_ctx.pick"]⟩
    [.element
      ⟨"template".toList, .template,
        [directive "slot" (some "cell") "\x7b value: row, index \x7d"]⟩
      [shown "row.text", shown "i", shown "Number.EPSILON", shown "_ctx.value"] ⟨0, 0⟩,
      shown "row"] ⟨0, 0⟩]

theorem generate_resolve_scopedTemplate :
    Node.isProperAll false scopedTemplate ∧
      Node.plainAll (Node.resolveAll [] scopedTemplate) = resolvedTemplate ∧
      generate .module (Node.plainAll scopedTemplate) =
        Verbatim.generate .module resolvedTemplate := by
  have hproper : Node.isProperAll false scopedTemplate := by decide +kernel
  have hresolved : Node.plainAll (Node.resolveAll [] scopedTemplate) = resolvedTemplate := by rfl
  refine ⟨hproper, hresolved, ?_⟩
  rw [← hresolved]
  exact generate_resolve .module scopedTemplate hproper

end ModuleServer.Render.Lexical
