import ModuleServer.Proofs.Render.Exchange
import ModuleServer.Proofs.Render.Written

/-!
# Conditions and loops in the code

What becomes of the conditions and the loop of an element, wherever it stands in a template that
compiles (`compile_guards`). The element's code stands under its conditions and inside of its loop,
each put into the context where the element stands. There are two exceptions:

* a template that is passed to a component as a slot has neither, whatever its tag says,
* a condition counts for nothing if its element ends a chain as an alternative without a condition.
-/

namespace ModuleServer.Render

open Text Template

theorem compile_of_parse (mode : Mode) {markup : Text} {nodes : List Node}
    (h : parse markup = .ok nodes) : compile mode markup = generate mode nodes := by
  rw [compile, h]

theorem generate_eq_ok {mode : Mode} {nodes : List Node} {code : RenderCode} :
    generate mode nodes = .ok code ↔
      ∃ roots, buildTemplate nodes = .ok roots ∧ code = RenderCode.ofRoots mode roots :=
  map_eq_ok

/-- An element of a template that compiles, at a place where it is drawn. Unless it is passed as a
slot, there is a spot in the virtual nodes for it, whatever its children are; its guards there are
those that its tag says, and its code is written between theirs. A template that is passed as a slot
is the same slot if all but the slot's directive is taken from its tag. -/
theorem compile_guards {mode : Mode} {markup : Text} {code : RenderCode} {p : Place} {tag : Tag}
    {children : List Node} {span : Span} (hcompile : compile mode markup = .ok code)
    (hparse : parse markup = .ok (p.fill (.element tag children span))) (hdrawn : p.isDrawn) :
    (p.passes tag = false → ∃ (spot : Spot) (item : VNode),
      buildPlain tag span (Sibling.ofNodes children) (loopNames tag ++ p.locals) = .ok item ∧
      (∀ children' item',
        buildPlain tag span (Sibling.ofNodes children') (loopNames tag ++ p.locals) = .ok item' →
        generate mode (p.fill (.element tag children' span)) =
          .ok (RenderCode.ofRoots mode (spot.fill item'))) ∧
      code = RenderCode.ofRoots mode (spot.fill item) ∧
      OwnGuards p.locals tag (Wrap.guards spot.wraps) ∧
      ∃ depth, Wrap.openings depth spot.wraps ++
          item.print (Wrap.innermostDepth depth spot.wraps) ++ Wrap.closings depth spot.wraps <:+:
        code.code) ∧
    (p.passes tag = true → ∀ tag' : Tag, tag'.kind = .template →
      tag'.directive? "slot".toList = tag.directive? "slot".toList →
      refuseDynamic tag'.items = .ok () →
      generate mode (p.fill (.element tag' children span)) = .ok code) := by
  rw [compile_of_parse mode hparse] at hcompile
  obtain ⟨roots, hroots, rfl⟩ := generate_eq_ok.1 hcompile
  constructor
  · intro hkept
    obtain ⟨-, spot, hcarries, hguards⟩ :=
      exists_spot p hdrawn children tag span id hkept hroots
    obtain ⟨item, hitem⟩ := hcarries.exists_ok
    have hspot : roots = spot.fill item := Except.ok.inj (hroots.symm.trans (hcarries.ok hitem))
    subst hspot
    refine ⟨spot, item, hitem, ?_, rfl, hguards, spot.infix_code item mode⟩
    intro children' item' hitem'
    exact generate_eq_ok.2 ⟨_, hcarries.ok (j := children') hitem', rfl⟩
  · intro hpasses tag' hkind hslot hdynamic
    obtain ⟨hstatic, -⟩ :=
      (carries_place p hdrawn children tag span id hroots).2 hpasses
    rw [← hcompile, generate, generate,
      buildTemplate_passed p span children hpasses hkind hslot (hdynamic.trans hstatic.symm)]

/-- The tag of a slot under a condition. -/
def guardedTag : Tag :=
  ⟨"template".toList, .template,
    [.directive ⟨"slot".toList, some ['a'], none, [], ⟨13, 16⟩⟩,
      .directive ⟨"if".toList, none, some "ok".toList, [], ⟨16, 25⟩⟩]⟩

/-- The same tag without the condition. -/
def unguardedTag : Tag :=
  { guardedTag with items := [.directive ⟨"slot".toList, some ['a'], none, [], ⟨13, 16⟩⟩] }

/-- The code of a component with that slot. -/
def guardedCode : RenderCode where
  code :=
    "const \x7b resolveComponent: _resolveComponent, withCtx: _withCtx, ".toList ++
      "createTextVNode: _createTextVNode, createVNode: _createVNode \x7d = Vue\n\n".toList ++
      "return function render(_ctx, _cache) \x7b\n".toList ++
      "  const _component_C = _resolveComponent(\"C\")\n\n".toList ++
      "  return _createVNode(_component_C, null, \x7b\n    a: _withCtx(() => [\n".toList ++
      "      _createTextVNode(\"x\")\n    ]),\n    _: 1 /* STABLE */\n  \x7d)\n\x7d\n".toList
  helpers := [.resolveComponent, .withCtx, .createTextVNode, .createVNode]
  components := [['C']]

theorem compile_guards_guardedTag :
    let markup := "<C><template #a v-if=\"ok\">x</template></C>".toList
    let p : Place := .inside (.root [] []) ⟨['C'], .component, []⟩ ⟨0, 42⟩ [] []
    let text : Node := .text ['x'] ⟨26, 27⟩
    compile .function markup = .ok guardedCode ∧
      parse markup = .ok (p.fill (.element guardedTag [text] ⟨3, 38⟩)) ∧ p.isDrawn ∧
      p.passes guardedTag ∧
      generate .function (p.fill (.element unguardedTag [text] ⟨3, 38⟩)) = .ok guardedCode := by
  intro markup p text
  have hcompile : compile .function markup = .ok guardedCode := by decide +kernel
  have hparse : parse markup = .ok (p.fill (.element guardedTag [text] ⟨3, 38⟩)) := by
    decide +kernel
  have hpasses : p.passes guardedTag := by decide
  refine ⟨hcompile, hparse, rfl, hpasses, ?_⟩
  exact (compile_guards hcompile hparse rfl).2 hpasses unguardedTag rfl rfl rfl

end ModuleServer.Render
