import Mathlib.Data.List.Nodup
import ModuleServer.Proofs.Render.Given
import ModuleServer.Proofs.Render.Guard
import ModuleServer.Proofs.Render.Parts

/-!
# Components and their variables

The code of a template resolves each component that is drawn in it by its name, once, in a line that
binds a variable, and writes the variable wherever the component stands (`compile_components`). The
variable does not tell the name: it has an underscore for every other character than a letter, a
digit or a dollar sign. So two lines bind one variable exactly where two names that are drawn differ
in such characters alone.
-/

namespace ModuleServer.Render

open Text Template

/-- A component of the name is drawn among nodes. -/
def NamesComponent (nodes : List Node) (name : Text) : Prop :=
  ∃ tag children span, DrawnIn (.element tag children span) nodes ∧ tag.kind = .component ∧
    tag.name = name ∧ name ≠ "component".toList

/-! ## Names in virtual nodes -/

section Names

variable {name : Text} {v : VNode}

theorem mem_componentsAll {vs : List VNode} :
    name ∈ VNode.componentsAll vs ↔ ∃ v ∈ vs, name ∈ v.components := by
  induction vs with
  | nil => simp [VNode.componentsAll]
  | cons v vs ih => simp [VNode.componentsAll, ih]

theorem mem_componentsSlots {slots : List (Slot VNode)} :
    name ∈ VNode.componentsSlots slots ↔ ∃ slot ∈ slots, ∃ v ∈ slot.children,
      name ∈ v.components := by
  induction slots with
  | nil => simp [VNode.componentsSlots]
  | cons slot slots ih =>
    obtain ⟨_, _, children, _⟩ := slot
    simp [VNode.componentsSlots, mem_componentsAll, ih]

/-- What holds of the names of a node's targets. -/
def namesParts (Q : Text → Prop) : Parts where
  target target := ∀ name ∈ target.components, Q name

mutual

/-- Every name in a node is that of a target. -/
theorem forall_components {Q : Text → Prop} :
    ∀ {v : VNode}, v.All (namesParts Q) → ∀ name ∈ v.components, Q name
  | .text _, _ => nofun
  | .leaf _ _, _ => nofun
  | .labelled _ _ _, _ => nofun
  | .parent _ _ _, ⟨_, _, hchildren⟩ => forall_componentsAll hchildren
  | .component _ _ _, ⟨htarget, _, hslots⟩ =>
    List.forall_mem_append.2 ⟨htarget, forall_componentsSlots hslots⟩
  | .outlet _ _ _, ⟨_, _, hfallback⟩ => forall_componentsAll hfallback
  | .fragment _, hchildren => forall_componentsAll hchildren
  | .list _ _ item, ⟨_, hitem⟩ => forall_components (v := item) hitem
  | .chain body, hbody => forall_components (v := body) hbody
  | .choice _ _ _, ⟨_, hyes, hno⟩ =>
    List.forall_mem_append.2 ⟨forall_components hno, forall_components hyes⟩
  | .hidden, _ => nofun

/-- Every name in nodes is that of a target. -/
theorem forall_componentsAll {Q : Text → Prop} : ∀ {vs : List VNode},
    VNode.AllIn (namesParts Q) vs → ∀ name ∈ VNode.componentsAll vs, Q name
  | [], _ => nofun
  | _ :: _, ⟨hv, hvs⟩ =>
    List.forall_mem_append.2 ⟨forall_components hv, forall_componentsAll hvs⟩

/-- Every name in slots is that of a target. -/
theorem forall_componentsSlots {Q : Text → Prop} : ∀ {slots : List (Slot VNode)},
    VNode.AllInSlots (namesParts Q) slots → ∀ name ∈ VNode.componentsSlots slots, Q name
  | [], _ => nofun
  | ⟨_, _, _, _⟩ :: _, ⟨_, hchildren, hslots⟩ =>
    List.forall_mem_append.2 ⟨forall_componentsAll hchildren, forall_componentsSlots hslots⟩

end

theorem mem_components_fillAll (wraps : List Wrap) (h : name ∈ v.components) :
    name ∈ (Wrap.fillAll wraps v).components := by
  induction wraps with
  | nil => exact h
  | cons wrap wraps ih =>
    cases wrap with
    | chain => exact ih
    | yes test other => exact List.mem_append_right _ ih
    | no test other => exact List.mem_append_left _ ih
    | list source names => exact ih

theorem Holder.mem_components_fill (holder : Holder) {vs : List VNode} (hv : v ∈ vs)
    (h : name ∈ v.components) : name ∈ (holder.fill vs).components := by
  have hall : name ∈ VNode.componentsAll vs := mem_componentsAll.2 ⟨v, hv, h⟩
  cases holder with
  | parent tag props => exact hall
  | outlet outlet props => exact hall
  | fragment => exact hall
  | slot target props before slot params implicit behind =>
    have hslot : Slot.mk slot params vs implicit ∈
        before ++ ⟨slot, params, vs, implicit⟩ :: behind :=
      List.mem_append_right _ (List.mem_cons_self ..)
    exact List.mem_append_right _ (mem_componentsSlots.2 ⟨_, hslot, v, hv, h⟩)

theorem Surroundings.mem_components_fill (around : Surroundings) {vs : List VNode} (hv : v ∈ vs)
    (h : name ∈ v.components) : name ∈ VNode.componentsAll (around.fill vs) := by
  induction around generalizing v vs with
  | roots => exact mem_componentsAll.2 ⟨v, hv, h⟩
  | inside around before wraps behind holder ih =>
    exact ih (List.mem_append_right before (List.mem_cons_self ..))
      (mem_components_fillAll wraps (holder.mem_components_fill hv h))

/-- A name in a node is one of all roots, wherever the node stands. -/
theorem Spot.mem_components_fill (spot : Spot) (h : name ∈ v.components) :
    name ∈ VNode.componentsAll (spot.fill v) :=
  spot.around.mem_components_fill (List.mem_append_right spot.before (List.mem_cons_self ..))
    (mem_components_fillAll spot.wraps h)

end Names

/-! ## Names in a template -/

section Templates

variable {nodes children : List Node} {roots : List VNode} {tag : Tag} {span : Span}

theorem buildTarget_eq_named {locals : List Text} (hname : tag.name ≠ "component".toList) :
    buildTarget locals tag span = .ok (.named tag.name) :=
  if_neg hname

/-- A component that is drawn has a node of its name among all nodes, and its name is one of
theirs. -/
theorem exists_spot_component (h : DrawnIn (.element tag children span) nodes)
    (hkind : tag.kind = .component) (hname : tag.name ≠ "component".toList)
    (hbuild : buildTemplate nodes = .ok roots) :
    ∃ (spot : Spot) (props : List Assignment) (slots : List (Slot VNode)),
      roots = spot.fill (.component (.named tag.name) props slots) ∧
      tag.name ∈ VNode.componentsAll roots := by
  obtain ⟨⟨p, rfl, hdrawn⟩, -⟩ := h.exists_place
  have hkept : p.passes tag = false := by
    cases p with
    | root => rfl
    | inside _ outer => simp [Place.passes, isSlotTemplate, hkind]
  obtain ⟨-, spot, hcarries, -⟩ := exists_spot p hdrawn children tag span id hkept hbuild
  obtain ⟨item, hitem⟩ := hcarries.exists_ok
  obtain rfl : roots = spot.fill item := Except.ok.inj (hbuild.symm.trans (hcarries.ok hitem))
  rw [buildPlain, hkind] at hitem
  obtain ⟨target, props, slots, htarget, -, -, rfl⟩ := buildComponent_eq_ok.1 hitem
  obtain rfl : Target.named tag.name = target :=
    Except.ok.inj ((buildTarget_eq_named hname).symm.trans htarget)
  refine ⟨spot, props, slots, rfl, spot.mem_components_fill ?_⟩
  exact List.mem_append_left _ (List.mem_singleton.2 rfl)

/-- The names of the components in the nodes of a template are those that are drawn in it. -/
theorem mem_componentsAll_iff (hbuild : buildTemplate nodes = .ok roots) {name : Text} :
    name ∈ VNode.componentsAll roots ↔ NamesComponent nodes name := by
  constructor
  · refine forall_componentsAll (all_of_drawn (fun node hnode => ?_) hbuild) name
    cases node with
    | element tag children span =>
      refine { name := fun _ => trivial, props := fun _ => trivial, label := fun _ _ _ => trivial,
               target := fun hkind htarget => ?_, slot := fun _ => trivial, ownSlot := trivial,
               outlet := fun _ => trivial, loop := fun _ => trivial, test := fun _ => trivial }
      intro name hname
      -- a component that a value tells has no name
      rcases buildTarget_cases htarget with ⟨hself, rfl⟩ | ⟨value, -, rfl⟩
      · obtain rfl := List.mem_singleton.1 hname
        exact ⟨tag, children, span, hnode, hkind, rfl, hself⟩
      · cases hname
    | text content span => trivial
    | interpolation exp span => exact fun _ _ _ => trivial
  · rintro ⟨tag, children, span, hdrawn, hkind, rfl, hname⟩
    obtain ⟨-, -, -, -, hmem⟩ := exists_spot_component hdrawn hkind hname hbuild
    exact hmem

end Templates

/-! ## Lines and variables -/

theorem nodup_eraseDups : ∀ names : List Text, names.eraseDups.Nodup
  | [] => List.nodup_nil
  | name :: names => by
    rw [List.eraseDups_cons, List.nodup_cons]
    refine ⟨?_, nodup_eraseDups _⟩
    rw [List.mem_eraseDups, List.mem_filter]
    rintro ⟨-, hne⟩
    simp at hne
termination_by names => names.length
decreasing_by exact Nat.lt_succ_of_le (List.length_filter_le _ _)

/-- The components in the code of a template that compiles. The lines before the result are one for
each name that is drawn, and no other; they bind each variable once if and only if no two names that
are drawn have the same variable; and every component that is drawn is written with the variable of
its name, in what is returned. -/
theorem compile_components {mode : Mode} {markup : Text} {nodes : List Node} {code : RenderCode}
    (hparse : parse markup = .ok nodes) (hcompile : compile mode markup = .ok code) :
    ∃ root,
      code.code = helperLine mode code.helpers ++ (functionWord mode ++
        " function render(_ctx, _cache) \x7b\n".toList ++ functionBody code.components root ++
        ['}', '\n']) ∧
      code.components.Nodup ∧
      (∀ name, name ∈ code.components ↔ NamesComponent nodes name) ∧
      ((code.components.map componentVariable).Nodup ↔
        ∀ name name', NamesComponent nodes name → NamesComponent nodes name' →
          componentVariable name = componentVariable name' → name = name') ∧
      ∀ tag children span, DrawnIn (.element tag children span) nodes → tag.kind = .component →
        tag.name ≠ "component".toList →
        ∃ props content, create (componentVariable tag.name) props content <:+: root := by
  rw [compile_of_parse mode hparse] at hcompile
  obtain ⟨roots, hroots, rfl⟩ := generate_eq_ok.1 hcompile
  have hnodup : (VNode.componentsAll roots).eraseDups.Nodup := nodup_eraseDups _
  have hmem : ∀ name, name ∈ (VNode.componentsAll roots).eraseDups ↔ NamesComponent nodes name := by
    intro name
    rw [List.mem_eraseDups, mem_componentsAll_iff hroots]
  refine ⟨printRoots roots, rfl, hnodup, hmem, ?_, ?_⟩
  · show ((VNode.componentsAll roots).eraseDups.map componentVariable).Nodup ↔ _
    rw [List.nodup_map_iff_inj_on hnodup]
    simp only [hmem]
    exact ⟨fun h name name' hname hname' => h name hname name' hname',
      fun h name hname name' hname' => h name name' hname hname'⟩
  · intro tag children span hdrawn hkind hname
    obtain ⟨spot, props, slots, rfl, -⟩ := exists_spot_component hdrawn hkind hname hroots
    obtain ⟨depth, hwritten⟩ := spot.infix_printRoots (.component (.named tag.name) props slots)
    exact ⟨_, _, (List.infix_append _ _ _).trans hwritten⟩

/-- Two components whose names differ in a dash and an underscore. -/
def twoComponents : List Node :=
  [.element ⟨"a-b".toList, .component, []⟩ [] ⟨0, 6⟩,
    .element ⟨"a_b".toList, .component, []⟩ [] ⟨6, 12⟩]

/-- Their code, which binds one variable twice. -/
def twoComponentsCode : RenderCode where
  code :=
    "const \x7b Fragment: _Fragment, resolveComponent: _resolveComponent, ".toList ++
      "createVNode: _createVNode \x7d = Vue\n\n".toList ++
      "return function render(_ctx, _cache) \x7b\n".toList ++
      "  const _component_a_b = _resolveComponent(\"a-b\")\n".toList ++
      "  const _component_a_b = _resolveComponent(\"a_b\")\n\n".toList ++
      "  return _createVNode(_Fragment, null, [\n    _createVNode(_component_a_b),\n".toList ++
      "    _createVNode(_component_a_b)\n  ])\n\x7d\n".toList
  helpers := [.fragment, .resolveComponent, .createVNode]
  components := ["a-b".toList, "a_b".toList]

theorem compile_components_twoComponents :
    let markup := "<a-b/><a_b/>".toList
    parse markup = .ok twoComponents ∧ compile .function markup = .ok twoComponentsCode ∧
      ¬(twoComponentsCode.components.map componentVariable).Nodup ∧
      ∃ name name', NamesComponent twoComponents name ∧ NamesComponent twoComponents name' ∧
        componentVariable name = componentVariable name' ∧ name ≠ name' := by
  intro markup
  have hparse : parse markup = .ok twoComponents := by decide +kernel
  have hcompile : compile .function markup = .ok twoComponentsCode := by decide +kernel
  have htwice : ¬(twoComponentsCode.components.map componentVariable).Nodup := by decide
  obtain ⟨root, -, -, -, hdistinct, -⟩ := compile_components hparse hcompile
  refine ⟨hparse, hcompile, htwice, ?_⟩
  rw [hdistinct] at htwice
  simp only [not_forall] at htwice
  obtain ⟨name, name', hname, hname', hsame, hne⟩ := htwice
  exact ⟨name, name', hname, hname', hsame, hne⟩

end ModuleServer.Render
