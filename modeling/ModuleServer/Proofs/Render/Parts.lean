import ModuleServer.Proofs.Render.Given

/-!
# Parts of virtual nodes

What is asked of the parts of virtual nodes (`Parts`), their texts, props, tests and whatever else
they hold beside nodes, is asked of all that is in them by `VNode.All`. Every part comes from a tag
or a text that is drawn (`DrawnIn`). So the nodes of a template are as asked if all that is drawn in
it gives such parts (`all_of_drawn`).
-/

namespace ModuleServer.Render

open Text Template
open List (Forall₂)

/-! ## Parts -/

/-- What is asked of the parts of nodes. -/
structure Parts where
  /-- Parts of texts. -/
  text : TextPart → Prop := fun _ => True
  /-- Names of native elements. -/
  tag : Text → Prop := fun _ => True
  /-- Props. -/
  props : List Assignment → Prop := fun _ => True
  /-- Targets of components. -/
  target : Target → Prop := fun _ => True
  /-- Names and parameters of slots that are passed. -/
  slot : (name params : Text) → Prop := fun _ _ => True
  /-- Names of places for slots. -/
  outlet : Value → Prop := fun _ => True
  /-- Sources and names of loops. -/
  loop : (source names : Text) → Prop := fun _ _ => True
  /-- Conditions. -/
  test : Text → Prop := fun _ => True

variable {P : Parts}

mutual

/-- The parts of a node, and of the nodes in it, are as asked. -/
def VNode.All (P : Parts) : VNode → Prop
  | .text run => ∀ p ∈ run, P.text p
  | .leaf tag props => P.tag tag ∧ P.props props
  | .labelled tag props run => P.tag tag ∧ P.props props ∧ ∀ p ∈ run, P.text p
  | .parent tag props children => P.tag tag ∧ P.props props ∧ VNode.AllIn P children
  | .component target props slots => P.target target ∧ P.props props ∧ VNode.AllInSlots P slots
  | .outlet name props fallback => P.outlet name ∧ P.props props ∧ VNode.AllIn P fallback
  | .fragment children => VNode.AllIn P children
  | .list source names item => P.loop source names ∧ VNode.All P item
  | .chain body => VNode.All P body
  | .choice test yes no => P.test test ∧ VNode.All P yes ∧ VNode.All P no
  | .hidden => True

/-- The parts of nodes are as asked. -/
def VNode.AllIn (P : Parts) : List VNode → Prop
  | [] => True
  | v :: vs => VNode.All P v ∧ VNode.AllIn P vs

/-- The parts of slots are as asked. -/
def VNode.AllInSlots (P : Parts) : List (Slot VNode) → Prop
  | [] => True
  | ⟨name, params, children, _⟩ :: slots =>
    P.slot name params ∧ VNode.AllIn P children ∧ VNode.AllInSlots P slots

end

theorem allIn_iff {vs : List VNode} : VNode.AllIn P vs ↔ ∀ v ∈ vs, v.All P := by
  induction vs with
  | nil => simp [VNode.AllIn]
  | cons v vs ih => rw [VNode.AllIn, ih, List.forall_mem_cons]

theorem allInSlots_iff {slots : List (Slot VNode)} : VNode.AllInSlots P slots ↔
    ∀ slot ∈ slots, P.slot slot.name slot.params ∧ VNode.AllIn P slot.children := by
  induction slots with
  | nil => simp [VNode.AllInSlots]
  | cons slot slots ih =>
    obtain ⟨name, params, children, implicit⟩ := slot
    rw [VNode.AllInSlots, ih, List.forall_mem_cons, and_assoc]

/-! ## What is drawn -/

/-- A node is drawn among nodes: it is one of them, or is drawn in one that draws its children. -/
inductive DrawnIn (node : Node) : List Node → Prop where
  | here {nodes : List Node} (h : node ∈ nodes) : DrawnIn node nodes
  | inside {nodes children : List Node} {tag : Tag} {span : Span}
      (h : .element tag children span ∈ nodes) (hdraws : drawsChildren tag)
      (hnode : DrawnIn node children) : DrawnIn node nodes

/-- A node that is drawn stands at a place where it is drawn, also if what it is drawn among are the
children of an element at such a place. -/
theorem DrawnIn.exists_place {node : Node} {nodes : List Node} (h : DrawnIn node nodes) :
    (∃ p : Place, nodes = p.fill node ∧ p.isDrawn) ∧
      ∀ (outer : Place) (tag : Tag) (span : Span), outer.isDrawn → drawsChildren tag →
        ∃ p : Place, outer.fill (.element tag nodes span) = p.fill node ∧ p.isDrawn := by
  induction h with
  | here h =>
    obtain ⟨before, behind, rfl⟩ := List.append_of_mem h
    refine ⟨⟨.root before behind, rfl, rfl⟩, fun outer tag span houter hdraws => ?_⟩
    exact ⟨.inside outer tag span before behind, rfl, Bool.and_eq_true_iff.2 ⟨hdraws, houter⟩⟩
  | @inside nodes children parent place h hdraws hnode ih =>
    obtain ⟨before, behind, rfl⟩ := List.append_of_mem h
    refine ⟨ih.2 (.root before behind) parent place rfl hdraws,
      fun outer tag span houter hdraws' => ?_⟩
    exact ih.2 (.inside outer tag span before behind) parent place
      (Bool.and_eq_true_iff.2 ⟨hdraws', houter⟩) hdraws

/-! ## What is given -/

/-- A tag gives parts as asked, whatever names are bound around its element. -/
structure TagGives (P : Parts) (tag : Tag) (span : Span) : Prop where
  name : tag.kind = .native → P.tag tag.name
  props : ∀ {locals skipped props}, assignments locals skipped tag.items = .ok props →
    P.props props
  label : ∀ {locals d exp e}, tag.directive? "text".toList = some d → required d = .ok exp →
    inContext locals exp = .ok e → P.text (.shown e)
  target : ∀ {locals target}, tag.kind = .component → buildTarget locals tag span = .ok target →
    P.target target
  slot : ∀ {d}, tag.directive? "slot".toList = some d →
    P.slot (d.arg.getD "default".toList) (slotParams tag)
  ownSlot : P.slot "default".toList (slotParams tag)
  outlet : ∀ {locals name},
    keyValue? locals "name".toList "default".toList tag.items = .ok name →
    P.outlet (name.getD (.literal "default".toList))
  loop : ∀ {locals source names}, loopOf locals tag = .ok (some (source, names)) →
    P.loop source names
  test : ∀ {locals test}, testOf locals tag = .ok (some test) → P.test test

/-- A node gives parts as asked, apart from its children. -/
def NodeGives (P : Parts) : Node → Prop
  | .element tag _ span => TagGives P tag span
  | .text content _ => P.text (.literal content)
  | .interpolation exp _ => ∀ locals e, inContext locals exp = .ok e → P.text (.shown e)

/-- A sibling is built to nodes with parts as asked. -/
def SiblingGives (P : Parts) : Sibling → Prop
  | .element tag span build content => TagGives P tag span ∧
      (∀ locals v, build locals = .ok v → v.All P) ∧
      (tag.kind = .template → ∀ locals vs, content locals = .ok vs → VNode.AllIn P vs)
  | .text content => P.text (.literal content)
  | .interpolation exp => ∀ locals e, inContext locals exp = .ok e → P.text (.shown e)

/-! ## Siblings -/

section Siblings

variable {siblings : List Sibling} {locals : List Text}

theorem all_textRun {run : List TextPart} (h : ∀ s ∈ siblings, SiblingGives P s)
    (hrun : textRun locals siblings = .ok run) : ∀ p ∈ run, P.text p := by
  intro p hp
  obtain ⟨part, hpart, hok⟩ := exists_of_forall₂_mem (mapM_eq_ok.1 hrun) hp
  obtain ⟨s, hs, hsome⟩ := List.mem_filterMap.1 hpart
  have hgives := h s hs
  cases s with
  | element => cases hsome
  | text content =>
    cases hsome
    cases hok
    exact hgives
  | interpolation exp =>
    cases hsome
    obtain ⟨e, he, rfl⟩ := map_eq_ok.1 hok
    exact hgives locals e he

theorem all_of_chained {branches : List Branch} {v : VNode}
    (h : ∀ b ∈ branches, ∃ content, SiblingGives P (.element b.tag b.span b.build content))
    (hchained : Chained locals branches v) : v.All P := by
  induction hchained with
  | hidden => trivial
  | otherwise _ hbuild =>
    obtain ⟨content, -, hbranch, -⟩ := h _ (List.mem_singleton.2 rfl)
    exact hbranch _ _ hbuild
  | test _ htest hbuild _ ih =>
    obtain ⟨⟨content, htag, hbranch, -⟩, hothers⟩ := List.forall_mem_cons.1 h
    exact ⟨htag.test htest, hbranch _ _ hbuild, ih hothers⟩

theorem all_buildSiblings {vs : List VNode} (h : ∀ s ∈ siblings, SiblingGives P s)
    (hbuild : buildSiblings locals siblings = .ok vs) : VNode.AllIn P vs := by
  rw [allIn_iff]
  intro v hv
  obtain ⟨g, hg, hok⟩ := exists_of_forall₂_mem (buildSiblings_eq_ok.1 hbuild) hv
  have hall := groups_forall h g hg
  cases g with
  | chain first others =>
    obtain ⟨body, hchained, rfl⟩ := buildChain_eq_ok.1 hok
    have hbody : body.All P := all_of_chained hall hchained
    rw [VNode.All]
    exact hbody
  | stray span => cases hok
  | single build =>
    obtain ⟨tag, span, content, -, hbranch, -⟩ := hall
    exact hbranch _ _ hok
  | run run =>
    obtain ⟨parts, hparts, rfl⟩ := map_eq_ok.1 hok
    exact all_textRun hall hparts

end Siblings

/-! ## Elements -/

section Elements

variable {tag : Tag} {span : Span} {children : List Sibling} {locals : List Text}

theorem all_contentNode {content : Content} {props : List Assignment} (hkind : tag.kind = .native)
    (htag : TagGives P tag span) (h : drawsChildren tag → ∀ s ∈ children, SiblingGives P s)
    (hprops : P.props props) (hcontent : buildContent locals tag children = .ok content) :
    (content.node tag.name props).All P := by
  have hname := htag.name hkind
  cases shows_of_buildContent hkind hcontent with
  | given hd hexp he hdraws =>
    have hlabel := htag.label hd (required_eq_ok.2 hexp) he
    exact ⟨hname, hprops, List.forall_mem_singleton.2 hlabel⟩
  | nothing hnone => exact ⟨hname, hprops⟩
  | run hdraws hall hrun => exact ⟨hname, hprops, all_textRun (h hdraws) hrun⟩
  | nodes hdraws hvs => exact ⟨hname, hprops, all_buildSiblings (h hdraws) hvs⟩

theorem all_passedSlots {built : Built (Slot VNode)} {slot : Slot VNode}
    (h : ∀ s ∈ children, SiblingGives P s) (hbuilt : built ∈ passedSlots locals tag children)
    (hok : built = .ok slot) : P.slot slot.name slot.params ∧ VNode.AllIn P slot.children := by
  rw [passedSlots] at hbuilt
  split at hbuilt
  · cases hbuilt
  · obtain ⟨s, hs, hnamed⟩ := List.mem_filterMap.1 hbuilt
    have hgives := h s hs
    rw [namedSlot?.eq_def] at hnamed
    split at hnamed
    · rename_i inner _ _ content d hd
      obtain ⟨htag, -, hcontent⟩ := hgives
      rw [slotDirective?] at hd
      split at hd
      · rename_i hkind
        obtain rfl := Option.some.inj hnamed
        obtain ⟨-, vs, hvs, rfl⟩ := (buildSlot_eq_ok hd).1 hok
        exact ⟨htag.slot hd, hcontent hkind _ vs hvs⟩
      · cases hd
    · cases hnamed

theorem all_buildSlots {slots : List (Slot VNode)} (htag : TagGives P tag span)
    (h : ∀ s ∈ children, SiblingGives P s) (hslots : buildSlots locals tag children = .ok slots) :
    VNode.AllInSlots P slots := by
  obtain ⟨named, own, rfl, hnamed, hown⟩ := buildSlots_eq_ok.1 hslots
  rw [allInSlots_iff]
  refine List.forall_mem_append.2 ⟨fun slot hslot => ?_, ?_⟩
  · obtain ⟨built, hbuilt, hok⟩ := exists_of_forall₂_mem hnamed hslot
    exact all_passedSlots h hbuilt hok
  · rcases hown with ⟨-, rfl⟩ | ⟨-, vs, hvs, rfl⟩
    · exact nofun
    · have hchildren : ∀ s ∈ ownChildren tag children, SiblingGives P s := by
        rw [ownChildren]
        split
        · exact h
        · exact fun s hs => h s (List.mem_filter.1 hs).1
      exact List.forall_mem_singleton.2 ⟨htag.ownSlot, all_buildSiblings hchildren hvs⟩

theorem drawsChildren_of_kind_ne (hkind : tag.kind ≠ .native) : drawsChildren tag := by
  simp [drawsChildren, hkind]

theorem all_buildPlain {v : VNode} (htag : TagGives P tag span)
    (h : drawsChildren tag → ∀ s ∈ children, SiblingGives P s)
    (hbuild : buildPlain tag span children locals = .ok v) : v.All P := by
  rw [buildPlain] at hbuild
  cases hkind : tag.kind with
  | template =>
    rw [hkind] at hbuild
    obtain ⟨vs, hvs, rfl⟩ := map_eq_ok.1 hbuild
    exact all_buildSiblings (h (drawsChildren_of_kind_ne (by simp [hkind]))) hvs
  | outlet =>
    rw [hkind] at hbuild
    obtain ⟨name, props, fallback, hname, hprops, hfallback, rfl⟩ := buildOutlet_eq_ok.1 hbuild
    have hchildren := h (drawsChildren_of_kind_ne (by simp [hkind]))
    exact ⟨htag.outlet hname, htag.props hprops, all_buildSiblings hchildren hfallback⟩
  | component =>
    rw [hkind] at hbuild
    obtain ⟨target, props, slots, htarget, hprops, hslots, rfl⟩ := buildComponent_eq_ok.1 hbuild
    have hchildren := h (drawsChildren_of_kind_ne (by simp [hkind]))
    exact ⟨htag.target hkind htarget, htag.props hprops, all_buildSlots htag hchildren hslots⟩
  | native =>
    rw [hkind] at hbuild
    obtain ⟨props, content, hprops, hcontent, rfl⟩ := buildNative_eq_ok.1 hbuild
    exact all_contentNode hkind htag h (htag.props hprops) hcontent

theorem all_buildElement {v : VNode} (htag : TagGives P tag span)
    (h : drawsChildren tag → ∀ s ∈ children, SiblingGives P s)
    (hbuild : buildElement tag span children locals = .ok v) : v.All P := by
  obtain ⟨-, loop, item, hloop, hitem, rfl⟩ := buildElement_eq_ok.1 hbuild
  have hall := all_buildPlain htag h hitem
  rcases loop with _ | ⟨source, names⟩
  · exact hall
  · exact ⟨htag.loop hloop, hall⟩

end Elements

/-! ## Templates -/

mutual

theorem gives_ofNode : ∀ {node : Node}, NodeGives P node →
    (∀ tag children span, node = .element tag children span → drawsChildren tag →
      ∀ inner, DrawnIn inner children → NodeGives P inner) →
    SiblingGives P (Sibling.ofNode node)
  | .element tag children span, hnode, hinside => by
    have hchildren : drawsChildren tag → ∀ s ∈ Sibling.ofNodes children, SiblingGives P s :=
      fun hdraws => gives_ofNodes (hinside tag children span rfl hdraws)
    refine ⟨hnode, fun _ _ => all_buildElement hnode hchildren, fun hkind _ _ => ?_⟩
    exact all_buildSiblings (hchildren (drawsChildren_of_kind_ne (by simp [hkind])))
  | .text .., hnode, _ => hnode
  | .interpolation .., hnode, _ => hnode

theorem gives_ofNodes : ∀ {nodes : List Node}, (∀ node, DrawnIn node nodes → NodeGives P node) →
    ∀ s ∈ Sibling.ofNodes nodes, SiblingGives P s
  | [], _ => nofun
  | node :: nodes, h => by
    have hfirst : node ∈ node :: nodes := List.mem_cons_self ..
    refine List.forall_mem_cons.2 ⟨gives_ofNode (h node (.here hfirst)) ?_, gives_ofNodes ?_⟩
    · rintro tag children span rfl hdraws inner hinner
      exact h inner (.inside hfirst hdraws hinner)
    · intro other hother
      refine h other ?_
      cases hother with
      | here hmem => exact .here (List.mem_cons_of_mem _ hmem)
      | inside hmem hdraws hinner => exact .inside (List.mem_cons_of_mem _ hmem) hdraws hinner

end

/-- The nodes of a template have parts as asked, if all that is drawn in it gives such parts. -/
theorem all_of_drawn {nodes : List Node} {roots : List VNode}
    (h : ∀ node, DrawnIn node nodes → NodeGives P node) (hbuild : buildTemplate nodes = .ok roots) :
    VNode.AllIn P roots :=
  all_buildSiblings (gives_ofNodes h) hbuild

end ModuleServer.Render
