import ModuleServer.Proofs.Render.Place

/-!
# From places to spots

What holds the children of an element is the same whatever one of them is built as
(`exists_carries_child`, `exists_carries_slot`). From there it is induction on the place: the nodes
at a place of a template are carried to the virtual nodes of the template (`carries_place`), and an
element at a place stands at a spot of its own (`exists_spot`).
-/

namespace ModuleServer.Render

open Text Template
open List (Forall₂)

/-! ## Children -/

section Children

variable {ι : Type} {locals : List Text} {tag child : Tag} {span place : Span}
  {pre post : List Sibling}

theorem isSome_slotDirective? (build : List Text → Built VNode)
    (content : List Text → Built (List VNode)) :
    (slotDirective? (.element child place build content)).isSome = isSlotTemplate child := by
  rw [slotDirective?, isSlotTemplate, Tag.has]
  by_cases hkind : child.kind = .template
  · simp [hkind]
  · simp [hkind]

theorem slotDirective?_eq_none (h : isSlotTemplate child = false) (build : List Text → Built VNode)
    (content : List Text → Built (List VNode)) :
    slotDirective? (.element child place build content) = none := by
  rw [← Option.isNone_iff_eq_none, ← Option.isSome_eq_false_iff, isSome_slotDirective?, h]

theorem beside_eq_ownChildren (hkind : tag.kind = .component) (children : List Sibling) :
    beside tag children = ownChildren tag children := by
  rw [beside, admitsSlots, ownChildren, hkind]
  cases tag.has "slot".toList <;> rfl

theorem beside_of_kind_ne (hkind : tag.kind ≠ .component) (children : List Sibling) :
    beside tag children = children := by
  rw [beside, admitsSlots, decide_eq_false hkind]
  rfl

theorem innerNames_of_kind_ne (hkind : tag.kind ≠ .component) : innerNames tag = [] :=
  if_neg hkind

theorem innerNames_of_admitsSlots (h : admitsSlots tag) : innerNames tag = [] := by
  rw [admitsSlots, Bool.and_eq_true, Bool.not_eq_true'] at h
  rw [innerNames, slotNames_of_not_has h.2, ite_self]

/-- A child that is no slot stands among the own children of its parent. -/
theorem ownChildren_own (hkind : tag.kind = .component)
    (hkept : (admitsSlots tag && isSlotTemplate child) = false)
    (build : List Text → Built VNode) (content : List Text → Built (List VNode)) :
    ownChildren tag (pre ++ .element child place build content :: post) =
      beside tag pre ++ .element child place build content :: beside tag post := by
  rw [beside_eq_ownChildren hkind, beside_eq_ownChildren hkind]
  unfold ownChildren
  cases hslot : tag.has "slot".toList with
  | true => rfl
  | false =>
    have hchild : isSlotTemplate child = false := by
      rwa [admitsSlots, decide_eq_true hkind, hslot, Bool.not_false, Bool.true_and,
        Bool.true_and] at hkept
    simp [slotDirective?_eq_none hchild]

/-- A child that is no slot adds nothing to the slots that are passed. -/
theorem passedSlots_own (hkind : tag.kind = .component)
    (hkept : (admitsSlots tag && isSlotTemplate child) = false)
    (build : List Text → Built VNode) (content : List Text → Built (List VNode)) :
    passedSlots locals tag (pre ++ .element child place build content :: post) =
      passedSlots locals tag (pre ++ post) := by
  unfold passedSlots
  cases hslot : tag.has "slot".toList with
  | true => rfl
  | false =>
    have hchild : isSlotTemplate child = false := by
      rwa [admitsSlots, decide_eq_true hkind, hslot, Bool.not_false, Bool.true_and,
        Bool.true_and] at hkept
    have hnamed : namedSlot? locals (.element child place build content) = none := by
      simp only [namedSlot?, slotDirective?_eq_none hchild]
    simp [hnamed]

/-- An element among the children of a native element that draws them makes them its nodes. -/
theorem buildContent_element (hkind : tag.kind = .native) (hdraws : drawsChildren tag)
    (build : List Text → Built VNode) (content : List Text → Built (List VNode)) :
    buildContent locals tag (pre ++ .element child place build content :: post) =
      (buildSiblings locals (pre ++ .element child place build content :: post)).map .nodes := by
  have hhas : tag.has "text".toList = false ∧ tag.has "html".toList = false := by
    simpa [drawsChildren, hkind] using hdraws
  have htext : tag.directive? "text".toList = none := by
    rw [← Option.isNone_iff_eq_none, ← Option.isSome_eq_false_iff]
    exact hhas.1
  have hempty : (pre ++ .element child place build content :: post).isEmpty = false := by
    cases pre <;> rfl
  have hall : ((pre ++ .element child place build content :: post).all
      fun c => !c.isElement) = false := by
    simp [Sibling.isElement]
  rw [buildContent, htext]
  dsimp only
  rw [hhas.2, hempty, hall]
  rfl

/-- The children of an element are built where its names are bound, and it holds the result. -/
theorem exists_carries_child (i : ι) (children : ι → List Node) (hdraws : drawsChildren tag)
    (hkept : (admitsSlots tag && isSlotTemplate child) = false) {v : VNode}
    (h : buildPlain tag span (pre ++ Sibling.ofNode (.element child (children i) place) :: post)
      locals = .ok v) :
    ∃ holder : Holder, Carries i
      (fun j => buildSiblings (innerNames tag ++ locals)
        (beside tag pre ++ Sibling.ofNode (.element child (children j) place) :: beside tag post))
      (fun j => buildPlain tag span
        (pre ++ Sibling.ofNode (.element child (children j) place) :: post) locals)
      holder.fill := by
  simp only [Sibling.ofNode] at h ⊢
  unfold buildPlain at h ⊢
  cases hkind : tag.kind with
  | template =>
    have hne : tag.kind ≠ .component := by simp [hkind]
    rw [hkind] at h
    obtain ⟨vs, hvs, rfl⟩ := map_eq_ok.1 h
    simp only [beside_of_kind_ne hne, innerNames_of_kind_ne hne, List.nil_append]
    exact ⟨.fragment, ⟨vs, hvs⟩, fun hj => map_eq_ok.2 ⟨_, hj, rfl⟩⟩
  | outlet =>
    have hne : tag.kind ≠ .component := by simp [hkind]
    rw [hkind] at h
    obtain ⟨name, props, vs, hname, hprops, hvs, rfl⟩ := buildOutlet_eq_ok.1 h
    simp only [beside_of_kind_ne hne, innerNames_of_kind_ne hne, List.nil_append]
    refine ⟨.outlet (name.getD (.literal "default".toList)) props, ⟨vs, hvs⟩, ?_⟩
    intro j vs' hj
    exact buildOutlet_eq_ok.2 ⟨name, props, vs', hname, hprops, hj, rfl⟩
  | native =>
    have hne : tag.kind ≠ .component := by simp [hkind]
    rw [hkind] at h
    obtain ⟨props, content', hprops, hcontent, rfl⟩ := buildNative_eq_ok.1 h
    rw [buildContent_element hkind hdraws] at hcontent
    obtain ⟨vs, hvs, rfl⟩ := map_eq_ok.1 hcontent
    simp only [beside_of_kind_ne hne, innerNames_of_kind_ne hne, List.nil_append]
    refine ⟨.parent tag.name props, ⟨vs, hvs⟩, ?_⟩
    intro j vs' hj
    refine buildNative_eq_ok.2 ⟨props, .nodes vs', hprops, ?_, rfl⟩
    rw [buildContent_element hkind hdraws]
    exact map_eq_ok.2 ⟨vs', hj, rfl⟩
  | component =>
    rw [hkind] at h
    obtain ⟨target, props, slots, htarget, hprops, hslots, rfl⟩ := buildComponent_eq_ok.1 h
    obtain ⟨named, own, rfl, hnamed, hown⟩ := buildSlots_eq_ok.1 hslots
    have hnames : innerNames tag = slotNames tag := if_pos hkind
    -- an element is not blank, so there is a slot for what stands in the component by itself
    have hblank : ∀ build content, (ownChildren tag
        (pre ++ .element child place build content :: post)).all Sibling.isBlank = false := by
      intro build content
      rw [ownChildren_own hkind hkept]
      simp [Sibling.isBlank]
    rcases hown with ⟨hall, -⟩ | ⟨-, vs, hvs, rfl⟩
    · exact absurd (hall.symm.trans (hblank _ _)) Bool.noConfusion
    rw [ownChildren_own hkind hkept] at hvs
    refine ⟨.slot target props named "default".toList (slotParams tag) true [], ?_⟩
    rw [hnames]
    refine ⟨⟨vs, hvs⟩, fun {j vs'} hj => ?_⟩
    refine buildComponent_eq_ok.2 ⟨target, props, _, htarget, hprops, ?_, rfl⟩
    refine buildSlots_eq_ok.2 ⟨named, _, rfl, ?_, .inr ⟨hblank _ _, vs', ?_, rfl⟩⟩
    · rw [passedSlots_own hkind hkept] at hnamed ⊢
      exact hnamed
    · rw [ownChildren_own hkind hkept]
      exact hj

theorem slotDirective?_of_isSlotTemplate (h : isSlotTemplate child)
    (build : List Text → Built VNode) (content : List Text → Built (List VNode)) :
    slotDirective? (.element child place build content) = child.directive? "slot".toList := by
  rw [isSlotTemplate, Bool.and_eq_true, decide_eq_true_eq] at h
  rw [slotDirective?, if_pos h.1]

/-- A child that is a slot stands among the slots that are passed. -/
theorem passedSlots_slot (hhas : tag.has "slot".toList = false) (hslot : isSlotTemplate child)
    {d : Directive} (hd : child.directive? "slot".toList = some d)
    (build : List Text → Built VNode) (content : List Text → Built (List VNode)) :
    passedSlots locals tag (pre ++ .element child place build content :: post) =
      passedSlots locals tag pre ++ buildSlot locals d child content ::
        passedSlots locals tag post := by
  have hnamed : namedSlot? locals (.element child place build content) =
      some (buildSlot locals d child content) := by
    simp only [namedSlot?, slotDirective?_of_isSlotTemplate hslot, hd]
  unfold passedSlots
  rw [hhas]
  simp [hnamed]

/-- A child that is a slot is not among the own children of its parent. -/
theorem ownChildren_slot (hhas : tag.has "slot".toList = false) (hslot : isSlotTemplate child)
    (build : List Text → Built VNode) (content : List Text → Built (List VNode)) :
    ownChildren tag (pre ++ .element child place build content :: post) =
      ownChildren tag (pre ++ post) := by
  have hsome : (slotDirective? (.element child place build content)).isSome := by
    rw [isSome_slotDirective?, hslot]
  unfold ownChildren
  rw [hhas]
  simp [← Option.not_isSome, hsome]

/-- A template that is passed as a slot is built where its parameters are bound, and the component
holds the result. -/
theorem exists_carries_slot (i : ι) (children : ι → List Node) (hadmits : admitsSlots tag)
    (hslot : isSlotTemplate child) {v : VNode}
    (h : buildPlain tag span (pre ++ Sibling.ofNode (.element child (children i) place) :: post)
      locals = .ok v) :
    refuseDynamic child.items = .ok () ∧ ∃ holder : Holder, Carries i
      (fun j => buildSiblings (slotNames child ++ locals) (Sibling.ofNodes (children j)))
      (fun j => buildPlain tag span
        (pre ++ Sibling.ofNode (.element child (children j) place) :: post) locals)
      holder.fill := by
  simp only [Sibling.ofNode] at h ⊢
  simp only [admitsSlots, Bool.and_eq_true, decide_eq_true_eq, Bool.not_eq_true'] at hadmits
  obtain ⟨hkind, hhas⟩ := hadmits
  obtain ⟨d, hd⟩ : ∃ d, child.directive? "slot".toList = some d := by
    rw [isSlotTemplate, Bool.and_eq_true] at hslot
    exact Option.isSome_iff_exists.1 hslot.2
  unfold buildPlain at h ⊢
  rw [hkind] at h ⊢
  obtain ⟨target, props, slots, htarget, hprops, hslots, rfl⟩ := buildComponent_eq_ok.1 h
  obtain ⟨named, own, rfl, hnamed, hown⟩ := buildSlots_eq_ok.1 hslots
  rw [passedSlots_slot hhas hslot hd] at hnamed
  rw [ownChildren_slot hhas hslot] at hown
  obtain ⟨before, rest, hbefore, hthis, rfl⟩ := forall₂_append_left.1 hnamed
  rcases hthis with _ | ⟨hthis, hbehind⟩
  rename_i behind
  obtain ⟨hdynamic, vs, hvs, rfl⟩ := (buildSlot_eq_ok hd).1 hthis
  refine ⟨hdynamic, .slot target props before (d.arg.getD "default".toList) (slotParams child)
    false (behind ++ own), ⟨vs, hvs⟩, ?_⟩
  intro j vs' hj
  have hslots' : Forall₂ (fun built slot => built = .ok slot)
      (passedSlots locals tag (pre ++ .element child place
        (buildElement child place (Sibling.ofNodes (children j)))
        (fun locals => buildSiblings locals (Sibling.ofNodes (children j))) :: post))
      (before ++ ⟨d.arg.getD "default".toList, slotParams child, vs', false⟩ :: behind) := by
    rw [passedSlots_slot hhas hslot hd]
    exact List.rel_append hbefore
      (.cons ((buildSlot_eq_ok hd).2 ⟨hdynamic, vs', hj, rfl⟩) hbehind)
  refine buildComponent_eq_ok.2 ⟨target, props, _, htarget, hprops, ?_, rfl⟩
  refine buildSlots_eq_ok.2 ⟨_, own, ?_, hslots', ?_⟩
  · rw [List.append_assoc, List.cons_append]
  · rw [ownChildren_slot hhas hslot]
    exact hown

end Children

/-! ## Templates -/

theorem ofNodes_append (nodes nodes' : List Node) :
    Sibling.ofNodes (nodes ++ nodes') = Sibling.ofNodes nodes ++ Sibling.ofNodes nodes' := by
  induction nodes with
  | nil => rfl
  | cons node nodes ih => simp only [List.cons_append, Sibling.ofNodes, ih]

theorem ofNodes_around (before behind : List Node) (node : Node) :
    Sibling.ofNodes (before ++ node :: behind) =
      Sibling.ofNodes before ++ Sibling.ofNode node :: Sibling.ofNodes behind := by
  rw [ofNodes_append, Sibling.ofNodes]

section Places

variable {ι : Type}

/-- The nodes at a place are carried to the nodes of the template: those that a node is grouped with
where the names of the place are bound, and what a template that is passed as a slot holds where its
parameters are bound as well. -/
theorem carries_place (p : Place) (hdrawn : p.isDrawn) (i : ι) (tag : Tag) (span : Span)
    (children : ι → List Node) {roots : List VNode}
    (h : buildTemplate (p.fill (.element tag (children i) span)) = .ok roots) :
    (p.passes tag = false → ∃ around : Surroundings, Carries i
      (fun j => buildSiblings p.locals
        (p.before ++ Sibling.ofNode (.element tag (children j) span) :: p.behind))
      (fun j => buildTemplate (p.fill (.element tag (children j) span))) around.fill) ∧
    (p.passes tag = true → refuseDynamic tag.items = .ok () ∧ ∃ around : Surroundings, Carries i
      (fun j => buildSiblings (slotNames tag ++ p.locals) (Sibling.ofNodes (children j)))
      (fun j => buildTemplate (p.fill (.element tag (children j) span))) around.fill) := by
  induction p generalizing i tag span children with
  | root before behind =>
    simp only [Place.fill, buildTemplate, ofNodes_around] at h ⊢
    exact ⟨fun _ => ⟨.roots, ⟨roots, h⟩, fun hj => hj⟩, fun hpasses => nomatch hpasses⟩
  | inside outer parent place before behind ih =>
    rw [Place.isDrawn, Bool.and_eq_true] at hdrawn
    obtain ⟨hdraws, hdrawn⟩ := hdrawn
    obtain ⟨hown, hslot⟩ := ih hdrawn i parent place
      (fun j => before ++ .element tag (children j) span :: behind) h
    cases hpasses : outer.passes parent with
    | true =>
      -- the parent is itself a slot, and no component
      obtain ⟨-, around, hcarries⟩ := hslot hpasses
      have hparent : admitsSlots parent = false := by
        cases outer with
        | root => nomatch hpasses
        | inside _ _ =>
          simp only [Place.passes, isSlotTemplate, Bool.and_eq_true, decide_eq_true_eq] at hpasses
          simp [admitsSlots, hpasses.2.1]
      simp only [ofNodes_around] at hcarries
      have hlocals : (Place.inside outer parent place before behind).locals =
          slotNames parent ++ outer.locals := if_pos hpasses
      have hbeside : ∀ children, beside parent children = children := by
        intro children
        rw [beside, hparent]
        rfl
      rw [hlocals]
      simp only [Place.before, Place.behind, hbeside]
      refine ⟨fun _ => ⟨around, hcarries⟩, fun hpasses' => ?_⟩
      simp [Place.passes, hparent] at hpasses'
    | false =>
      obtain ⟨around, hcarries⟩ := hown hpasses
      obtain ⟨vs, hvs⟩ := hcarries.exists_ok
      let inside := fun j => before ++ .element tag (children j) span :: behind
      obtain ⟨before', wraps, behind', hsiblings, -⟩ := exists_carries_siblings i inside hvs
      obtain ⟨v, hv⟩ := hsiblings.exists_ok
      obtain ⟨-, loop, -, helement⟩ := exists_carries_element i inside hv
      obtain ⟨item, hitem⟩ := helement.exists_ok
      have houter := (helement.trans hsiblings).trans hcarries
      have hlocals : (Place.inside outer parent place before behind).locals =
          innerNames parent ++ (loopNames parent ++ outer.locals) := by
        rw [Place.locals, hpasses]
        rfl
      rw [hlocals]
      simp only [inside, ofNodes_around] at hitem houter ⊢
      -- what holds the children stands where the parent stands, inside of its loop
      have hfill : ∀ holder,
          (Surroundings.inside around before' (wraps ++ Wrap.ofLoop loop) behind' holder).fill =
            (around.fill ∘ (fun v => before' ++ Wrap.fillAll wraps v :: behind') ∘
              Wrap.fillAll (Wrap.ofLoop loop)) ∘ holder.fill := by
        intro holder
        funext vs
        simp only [Surroundings.fill, Function.comp_apply, Wrap.fillAll_append]
      constructor
      · intro hkept
        obtain ⟨holder, hchild⟩ := exists_carries_child i children hdraws hkept hitem
        refine ⟨.inside around before' (wraps ++ Wrap.ofLoop loop) behind' holder, ?_⟩
        rw [hfill]
        exact hchild.trans houter
      · intro hpasses'
        rw [Place.passes, Bool.and_eq_true] at hpasses'
        obtain ⟨hdynamic, holder, hslot⟩ :=
          exists_carries_slot i children hpasses'.1 hpasses'.2 hitem
        refine ⟨hdynamic, .inside around before' (wraps ++ Wrap.ofLoop loop) behind' holder, ?_⟩
        rw [hfill, innerNames_of_admitsSlots hpasses'.1]
        exact hslot.trans houter

/-- The guards of an element of the tag where the names are bound: those of its chain, and inside of
them its loop. -/
def OwnGuards (locals : List Text) (tag : Tag) (guards : List Guard) : Prop :=
  ∃ chain loop, ChainGuards locals tag chain ∧ loopOf locals tag = .ok loop ∧
    guards = chain ++ loop.toList.map fun (source, _) => .each source

/-- An element that is not passed as a slot stands at a spot of its own, under the conditions of its
chain and inside of its loop. -/
theorem exists_spot (p : Place) (hdrawn : p.isDrawn) (i : ι) (tag : Tag) (span : Span)
    (children : ι → List Node) {roots : List VNode} (hkept : p.passes tag = false)
    (h : buildTemplate (p.fill (.element tag (children i) span)) = .ok roots) :
    refuseDynamic tag.items = .ok () ∧ ∃ spot : Spot,
      Carries i
        (fun j => buildPlain tag span (Sibling.ofNodes (children j)) (loopNames tag ++ p.locals))
        (fun j => buildTemplate (p.fill (.element tag (children j) span))) spot.fill ∧
      OwnGuards p.locals tag (Wrap.guards spot.wraps) := by
  obtain ⟨around, hcarries⟩ := (carries_place p hdrawn i tag span children h).1 hkept
  obtain ⟨vs, hvs⟩ := hcarries.exists_ok
  obtain ⟨before, wraps, behind, hsiblings, hguards⟩ := exists_carries_siblings i children hvs
  obtain ⟨v, hv⟩ := hsiblings.exists_ok
  obtain ⟨hdynamic, loop, hloop, helement⟩ := exists_carries_element i children hv
  refine ⟨hdynamic, ⟨around, before, wraps ++ Wrap.ofLoop loop, behind⟩, ?_, ?_⟩
  · have houter := (helement.trans hsiblings).trans hcarries
    have hfill : (Spot.mk around before (wraps ++ Wrap.ofLoop loop) behind).fill =
        around.fill ∘ (fun v => before ++ Wrap.fillAll wraps v :: behind) ∘
          Wrap.fillAll (Wrap.ofLoop loop) := by
      funext v
      simp only [Spot.fill, Function.comp_apply, Wrap.fillAll_append]
    rw [hfill]
    exact houter
  · refine ⟨_, loop, hguards, hloop, ?_⟩
    rw [Wrap.guards_append, Wrap.guards_ofLoop]

end Places

end ModuleServer.Render
