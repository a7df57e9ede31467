import ModuleServer.Proofs.Render.Spot

/-!
# Elements that can be exchanged

Two elements can be exchanged (`Exchangeable`) if they tell their parent the same and are built the
same. Nothing around them can tell them apart, at any place of a template
(`buildTemplate_exchange`), and many can be exchanged at once (`Exchanged.eq`).

Two cases of it matter: what stands where nothing is drawn (`buildTemplate_hidden`), and a template
that is passed as a slot, of which only the slot's directive counts (`buildTemplate_passed`).
-/

namespace ModuleServer.Render

open Text Template
open List (Forall₂)

/-- Two elements that tell their parent the same and are built the same. -/
inductive Exchangeable : Sibling → Sibling → Prop where
  | element {tag tag' : Tag} {span : Span} {build : List Text → Built VNode}
      {content content' : List Text → Built (List VNode)} (view : SameView tag tag')
      (hcontent : isSlotTemplate tag → content' = content) :
      Exchangeable (.element tag span build content) (.element tag' span build content')

variable {locals : List Text} {tag : Tag} {span : Span} {s s' : Sibling} {pre post : List Sibling}

/-! ## Chains -/

/-- A chain is built from its last member outwards. -/
theorem buildChain_concat {first last : Branch} {others init : List Branch}
    (h : first :: others = init ++ [last]) :
    buildChain locals first others =
      if last.tag.has "else".toList then do
        let otherwise ← last.build locals
        return .chain (← choose locals otherwise init.reverse)
      else return .chain (← choose locals .hidden (init ++ [last]).reverse) := by
  have hlast : (first :: others).getLast (List.cons_ne_nil first others) = last := by
    simp only [h, List.getLast_concat]
  have hinit : (first :: others).dropLast = init := by
    rw [h, List.dropLast_concat]
  rw [buildChain]
  simp only [hlast, hinit]
  rw [h]

theorem chainAround_concat {front behind init : List Branch} {b last : Branch}
    (h : front ++ b :: behind = init ++ [last]) :
    (chainAround front b behind).build locals =
      if last.tag.has "else".toList then do
        let otherwise ← last.build locals
        return .chain (← choose locals otherwise init.reverse)
      else return .chain (← choose locals .hidden (init ++ [last]).reverse) := by
  cases front with
  | nil => exact buildChain_concat h
  | cons first front => exact buildChain_concat h

/-- Members of a chain that have the same condition and are built the same can be exchanged. -/
theorem chainAround_exchange {tag' : Tag} (view : SameView tag tag')
    (build : List Text → Built VNode) (front behind : List Branch) :
    (chainAround front ⟨tag', span, build⟩ behind).build locals =
      (chainAround front ⟨tag, span, build⟩ behind).build locals := by
  have hcondition : condition ⟨tag', span, build⟩ = condition ⟨tag, span, build⟩ := by
    simp only [condition, view.directive _ (show "if".toList ∈ structuralDirectives by decide),
      view.directive _ (show "else-if".toList ∈ structuralDirectives by decide)]
  have hchoose : ∀ (otherwise : VNode) (inner outer : List Branch),
      choose locals otherwise (inner ++ ⟨tag', span, build⟩ :: outer) =
        choose locals otherwise (inner ++ ⟨tag, span, build⟩ :: outer) := by
    intro otherwise inner outer
    simp only [choose_append, choose, hcondition]
  rcases List.eq_nil_or_concat behind with rfl | ⟨others, last, rfl⟩
  · have hlast : ∀ b : Branch, front ++ [b] = front ++ [b] := fun _ => rfl
    rw [chainAround_concat (hlast _), chainAround_concat (hlast _)]
    dsimp only
    rw [view.has (by decide)]
    simp only [List.reverse_append, List.reverse_cons, List.reverse_nil, List.nil_append,
      List.cons_append, choose, hcondition]
  · have hsplit : ∀ b : Branch, front ++ b :: (others ++ [last]) =
        (front ++ b :: others) ++ [last] := by
      intro b
      simp
    rw [List.concat_eq_append, chainAround_concat (hsplit _), chainAround_concat (hsplit _)]
    have hreverse : ∀ b : Branch, (front ++ b :: others).reverse =
        others.reverse ++ b :: front.reverse := by
      intro b
      simp
    have hreverse' : ∀ b : Branch, (front ++ b :: others ++ [last]).reverse =
        (last :: others.reverse) ++ b :: front.reverse := by
      intro b
      simp
    simp only [hreverse, hreverse', hchoose]

/-! ## Among siblings -/

/-- Siblings become the same if one of them is exchanged. -/
theorem buildSiblings_exchange (h : Exchangeable s s') :
    buildSiblings locals (pre ++ s' :: post) = buildSiblings locals (pre ++ s :: post) := by
  cases h with
  | @element tag tag' span build content content' view hcontent =>
    obtain ⟨before, seat, behind, hseat, hgroups⟩ := seated tag span post pre
    have hbuild : (seat tag' build).build locals = (seat tag build).build locals := by
      cases hseat with
      | single => rfl
      | stray => rfl
      | chain front others => exact chainAround_exchange view build front others
    simp only [buildSiblings, hgroups tag' build content' view,
      hgroups tag build content (.refl tag), List.mapM_append, List.mapM_cons, hbuild]

/-- The slots of a component are the same if one of its children is exchanged. -/
theorem buildSlots_exchange (h : Exchangeable s s') :
    buildSlots locals tag (pre ++ s' :: post) = buildSlots locals tag (pre ++ s :: post) := by
  have hblank : s'.isBlank = s.isBlank := by
    cases h
    rfl
  have himplicit : ∀ params pre post, implicitSlot? locals params (pre ++ s' :: post) =
      implicitSlot? locals params (pre ++ s :: post) := by
    intro params pre post
    simp only [implicitSlot?, buildSiblings_exchange h, List.all_append, List.all_cons, hblank]
  have hdirective : slotDirective? s' = slotDirective? s := by
    cases h with
    | element view =>
      simp only [slotDirective?, view.kind,
        view.directive _ (show "slot".toList ∈ structuralDirectives by decide)]
  have hnamed : namedSlot? locals s' = namedSlot? locals s := by
    cases h with
    | @element tag tag' span build content content' view hcontent =>
      simp only [namedSlot?, hdirective]
      cases hslot : isSlotTemplate tag with
      | false => rw [slotDirective?_eq_none hslot]
      | true =>
        rw [hcontent hslot]
        cases slotDirective? (.element tag span build content) with
        | none => rfl
        | some d => simp only [buildSlot, view.dynamic]
  unfold buildSlots
  cases tag.directive? "slot".toList with
  | some d => simp only [himplicit]
  | none =>
    simp only [List.filterMap_append, List.filterMap_cons, hnamed, List.filter_append,
      List.filter_cons, hdirective]
    cases (slotDirective? s).isNone with
    | false => rfl
    | true => simp only [if_true, himplicit]

theorem buildElement_congr {children children' : List Sibling}
    (h : buildPlain tag span children' = buildPlain tag span children) :
    buildElement tag span children' = buildElement tag span children := by
  funext locals
  simp only [buildElement, h]

/-- An element is built the same if one of its children is exchanged. -/
theorem buildElement_exchange (h : Exchangeable s s') :
    buildElement tag span (pre ++ s' :: post) = buildElement tag span (pre ++ s :: post) := by
  have hcontent : ∀ locals, buildContent locals tag (pre ++ s' :: post) =
      buildContent locals tag (pre ++ s :: post) := by
    intro locals
    have hempty : ∀ s : Sibling, (pre ++ s :: post).isEmpty = false := by
      intro s
      cases pre <;> rfl
    have hall : ∀ s : Sibling, s.isElement = true →
        (pre ++ s :: post).all (fun c => !c.isElement) = false := by
      intro s hs
      simp [hs]
    have helement : s.isElement = true ∧ s'.isElement = true := by
      cases h
      exact ⟨rfl, rfl⟩
    simp only [buildContent, hempty, hall s helement.1, hall s' helement.2,
      buildSiblings_exchange h, Bool.false_eq_true, if_false]
  refine buildElement_congr ?_
  funext locals
  simp only [buildPlain, buildOutlet, buildComponent, buildNative, hcontent,
    buildSlots_exchange h, buildSiblings_exchange h]

/-! ## Many at once -/

/-- Siblings of which some elements are exchanged. -/
abbrev Exchanged : List Sibling → List Sibling → Prop :=
  Forall₂ fun s s' => s' = s ∨ Exchangeable s s'

/-- What one exchanged sibling cannot change, many cannot. -/
theorem Exchanged.eq {α : Type} {f : List Sibling → α}
    (hf : ∀ {s s' : Sibling} {pre post : List Sibling}, Exchangeable s s' →
      f (pre ++ s' :: post) = f (pre ++ s :: post))
    {siblings siblings' : List Sibling} (h : Exchanged siblings siblings') :
    f siblings' = f siblings := by
  have hbehind : ∀ pre, f (pre ++ siblings') = f (pre ++ siblings) := by
    induction h with
    | nil => exact fun _ => rfl
    | @cons s s' siblings siblings' hs _ ih =>
      intro pre
      have hfirst : f (pre ++ s' :: siblings') = f (pre ++ s :: siblings') := by
        rcases hs with rfl | hs
        · rfl
        · exact hf hs
      have hothers := ih (pre ++ [s])
      rw [List.append_assoc, List.append_assoc] at hothers
      exact hfirst.trans hothers
  exact hbehind []

theorem Exchanged.buildSiblings {siblings siblings' : List Sibling}
    (h : Exchanged siblings siblings') (locals : List Text) :
    buildSiblings locals siblings' = buildSiblings locals siblings :=
  Exchanged.eq buildSiblings_exchange h

theorem Exchanged.buildElement {siblings siblings' : List Sibling}
    (h : Exchanged siblings siblings') (tag : Tag) (span : Span) :
    buildElement tag span siblings' = buildElement tag span siblings :=
  Exchanged.eq buildElement_exchange h

/-! ## In templates -/

section Templates

variable {node node' : Node} {before behind : List Node}

/-- An element is the same to its parent if one of its children is exchanged. -/
theorem ofNode_exchange (h : Exchangeable (Sibling.ofNode node) (Sibling.ofNode node')) :
    Sibling.ofNode (.element tag (before ++ node' :: behind) span) =
      Sibling.ofNode (.element tag (before ++ node :: behind) span) := by
  simp only [Sibling.ofNode, ofNodes_around, buildElement_exchange h, buildSiblings_exchange h]

theorem buildTemplate_congr (p : Place) (h : Sibling.ofNode node' = Sibling.ofNode node) :
    buildTemplate (p.fill node') = buildTemplate (p.fill node) := by
  induction p generalizing node node' with
  | root before behind =>
    simp only [Place.fill, buildTemplate, ofNodes_around, h]
  | inside outer tag span before behind ih =>
    refine ih ?_
    simp only [Sibling.ofNode, ofNodes_around, h]

/-- A template is built the same if one of its elements is exchanged. -/
theorem buildTemplate_exchange (p : Place)
    (h : Exchangeable (Sibling.ofNode node) (Sibling.ofNode node')) :
    buildTemplate (p.fill node') = buildTemplate (p.fill node) := by
  cases p with
  | root before behind =>
    simp only [Place.fill, buildTemplate, ofNodes_around, buildSiblings_exchange h]
  | inside outer tag span before behind =>
    exact buildTemplate_congr outer (ofNode_exchange h)

/-- Elements of one tag can be exchanged if they are built the same, and their tag is not one of a
slot. -/
theorem exchangeable_children {children children' : List Node} (hslot : isSlotTemplate tag = false)
    (h : buildElement tag span (Sibling.ofNodes children') =
      buildElement tag span (Sibling.ofNodes children)) :
    Exchangeable (Sibling.ofNode (.element tag children span))
      (Sibling.ofNode (.element tag children' span)) := by
  simp only [Sibling.ofNode]
  rw [h]
  exact .element (.refl tag) fun htrue => absurd (htrue.symm.trans hslot) Bool.noConfusion

/-- Where nothing is drawn, nothing counts. -/
theorem buildTemplate_hidden (p : Place) (h : p.isDrawn = false) (node node' : Node) :
    buildTemplate (p.fill node') = buildTemplate (p.fill node) := by
  induction p generalizing node node' with
  | root before behind => exact absurd h.symm Bool.false_ne_true
  | inside outer tag span before behind ih =>
    rw [Place.isDrawn, Bool.and_eq_false_iff] at h
    rcases h with h | h
    · -- the parent shows something of its own instead of its children
      simp only [drawsChildren, Bool.not_eq_false', Bool.and_eq_true, decide_eq_true_eq,
        Bool.or_eq_true] at h
      obtain ⟨hkind, hhas⟩ := h
      have hcontent : ∀ locals,
          buildContent locals tag (Sibling.ofNodes (before ++ node' :: behind)) =
            buildContent locals tag (Sibling.ofNodes (before ++ node :: behind)) := by
        intro locals
        unfold buildContent
        cases htext : tag.directive? "text".toList with
        | some d => rfl
        | none =>
          have hhtml : tag.has "html".toList = true := by
            rcases hhas with htrue | hhtml
            · rw [Tag.has, htext] at htrue
              exact absurd htrue Bool.false_ne_true
            · exact hhtml
          simp only [hhtml, Bool.true_or, if_true]
      refine buildTemplate_exchange outer (exchangeable_children ?_ ?_)
      · simp [isSlotTemplate, hkind]
      · refine buildElement_congr ?_
        funext locals
        simp only [buildPlain, hkind, buildNative, hcontent]
    · exact ih h _ _

/-- Of a template that is passed as a slot, nothing counts but its slot, and that none of its
arguments is only known when rendering. -/
theorem buildTemplate_passed (p : Place) {tag tag' : Tag} (span : Span) (children : List Node)
    (hpasses : p.passes tag) (hkind : tag'.kind = .template)
    (hslot : tag'.directive? "slot".toList = tag.directive? "slot".toList)
    (hdynamic : refuseDynamic tag'.items = refuseDynamic tag.items) :
    buildTemplate (p.fill (.element tag' children span)) =
      buildTemplate (p.fill (.element tag children span)) := by
  cases p with
  | root => exact absurd hpasses Bool.false_ne_true
  | inside outer parent place before behind =>
    rw [Place.passes, Bool.and_eq_true] at hpasses
    obtain ⟨hadmits, htemplate⟩ := hpasses
    simp only [admitsSlots, Bool.and_eq_true, decide_eq_true_eq, Bool.not_eq_true'] at hadmits
    have htemplate' : isSlotTemplate tag' := by
      rw [isSlotTemplate, Bool.and_eq_true] at htemplate ⊢
      rw [Tag.has, hslot, decide_eq_true hkind]
      exact ⟨rfl, htemplate.2⟩
    obtain ⟨d, hd⟩ : ∃ d, tag.directive? "slot".toList = some d := by
      rw [isSlotTemplate, Bool.and_eq_true] at htemplate
      exact Option.isSome_iff_exists.1 htemplate.2
    refine buildTemplate_exchange outer (exchangeable_children ?_ ?_)
    · simp [isSlotTemplate, hadmits.1]
    · -- the slot is the same, and the template is not among the parent's own children
      have hnone : parent.directive? "slot".toList = none := by
        rw [← Option.isNone_iff_eq_none, ← Option.isSome_eq_false_iff]
        exact hadmits.2
      have hslots : ∀ locals,
          buildSlots locals parent
              (Sibling.ofNodes (before ++ .element tag' children span :: behind)) =
            buildSlots locals parent
              (Sibling.ofNodes (before ++ .element tag children span :: behind)) := by
        intro locals
        have hdirective : ∀ build content,
            slotDirective? (.element tag' span build content) = some d ∧
              slotDirective? (.element tag span build content) = some d := by
          intro build content
          rw [slotDirective?_of_isSlotTemplate htemplate',
            slotDirective?_of_isSlotTemplate htemplate, hslot, hd]
          exact ⟨rfl, rfl⟩
        simp only [buildSlots, hnone, ofNodes_around, Sibling.ofNode, List.filterMap_append,
          List.filterMap_cons, List.filter_append, List.filter_cons, namedSlot?, hdirective,
          buildSlot, hdynamic]
        rfl
      refine buildElement_congr ?_
      funext locals
      simp only [buildPlain, hadmits.1, buildComponent, hslots]

end Templates

end ModuleServer.Render
