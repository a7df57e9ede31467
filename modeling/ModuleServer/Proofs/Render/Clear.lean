import ModuleServer.Proofs.Render.Guard
import ModuleServer.Proofs.Render.Keys

/-!
# Templates without clashing keys

No object literal in the code of a template has a key twice if and only if no tag that is drawn
gives a key twice (`compile_keys`): among its items, no listener and no `v-html` comes behind an
entry of the same key, and a component is passed no two slots of one name, nor one with the name of
the entry that stands behind all slots.
-/

namespace ModuleServer.Render

open Text Template
open List (Forall₂)

/-! ## Tags that are clear -/

/-- The name of the slot that a node is if it is passed as one. -/
def slotName? : Node → Option Text
  | .element tag _ _ =>
    if tag.kind = .template then
      (tag.directive? "slot".toList).map fun d => d.arg.getD "default".toList
    else none
  | _ => none

/-- The nodes that stand in a component by themselves. -/
def ownNodes (tag : Tag) (children : List Node) : List Node :=
  if tag.has "slot".toList then children else children.filter fun node => (slotName? node).isNone

/-- The names of the slots that a component is passed. -/
def passedNames (tag : Tag) (children : List Node) : List Text :=
  (if tag.has "slot".toList then [] else children.filterMap slotName?) ++
    if (ownNodes tag children).all Node.isBlank then [] else ["default".toList]

/-- Whether the slots of a component have distinct names. -/
def slotsAreClear (tag : Tag) (children : List Node) : Bool :=
  decide (passedNames tag children ++ [stableKey]).Nodup

mutual

/-- Whether a node, and all that is drawn in it, gives no key twice. -/
def nodeIsClear : Node → Bool
  | .element tag children _ =>
    match tag.kind with
    | .template => nodesAreClear children
    | .outlet => noClash [] [] (grants ["name".toList] tag.items) && nodesAreClear children
    | .component => noClash [] [] (grants ["is".toList] tag.items) &&
        (slotsAreClear tag children && nodesAreClear children)
    | .native => noClash [] [] (grants [] tag.items) &&
        (!drawsChildren tag || nodesAreClear children)
  | .text .. => true
  | .interpolation .. => true

/-- Whether nodes, and all that is drawn in them, give no key twice. -/
def nodesAreClear : List Node → Bool
  | [] => true
  | node :: nodes => nodeIsClear node && nodesAreClear nodes

end

theorem nodesAreClear_iff {nodes : List Node} :
    nodesAreClear nodes ↔ ∀ node ∈ nodes, nodeIsClear node := by
  induction nodes with
  | nil => simp [nodesAreClear]
  | cons node nodes ih => rw [nodesAreClear, Bool.and_eq_true, ih, List.forall_mem_cons]

/-! ## Nodes that are clear -/

/-- No object literal of a node has a key twice. -/
def VNode.IsClear (v : VNode) : Prop :=
  ∀ literal ∈ v.literals, literal.keys.Nodup

section Nodes

variable {v : VNode}

theorem isClear_literalsAll {vs : List VNode} :
    (∀ literal ∈ VNode.literalsAll vs, literal.keys.Nodup) ↔ ∀ v ∈ vs, v.IsClear := by
  induction vs with
  | nil => simp [VNode.literalsAll]
  | cons v vs ih => rw [VNode.literalsAll, List.forall_mem_append, ih, List.forall_mem_cons]; rfl

theorem isClear_literalsSlots {slots : List (Slot VNode)} :
    (∀ literal ∈ VNode.literalsSlots slots, literal.keys.Nodup) ↔
      ∀ slot ∈ slots, ∀ v ∈ slot.children, v.IsClear := by
  induction slots with
  | nil => simp [VNode.literalsSlots]
  | cons slot slots ih =>
    obtain ⟨name, params, children, implicit⟩ := slot
    rw [VNode.literalsSlots, List.forall_mem_append, ih, List.forall_mem_cons,
      isClear_literalsAll]

theorem isClear_of_fill (wrap : Wrap) (h : (wrap.fill v).IsClear) : v.IsClear := by
  cases wrap with
  | chain => exact h
  | yes test other => exact (List.forall_mem_append.1 h).1
  | no test other => exact (List.forall_mem_append.1 h).2
  | list source names => exact h

/-- What is put around a node adds literals. -/
theorem isClear_of_fillAll (wraps : List Wrap) (h : (Wrap.fillAll wraps v).IsClear) :
    v.IsClear := by
  induction wraps with
  | nil => exact h
  | cons wrap wraps ih => exact ih (isClear_of_fill wrap h)

theorem isClear_repeated (loop : Option (Text × Text)) : (repeated loop v).IsClear ↔ v.IsClear := by
  rcases loop with _ | ⟨source, names⟩ <;> exact Iff.rfl

/-- The members of a chain tell whether it is clear. -/
theorem isClear_of_chained {locals : List Text} {branches : List Branch}
    (h : Chained locals branches v)
    (hbranches : ∀ b ∈ branches, ∀ v, b.build locals = .ok v → v.IsClear) : v.IsClear := by
  induction h with
  | hidden => exact List.forall_mem_nil _
  | otherwise helse h => exact hbranches _ (List.mem_singleton.2 rfl) _ h
  | test hlast htest h hothers ih =>
    obtain ⟨hfirst, hrest⟩ := List.forall_mem_cons.1 hbranches
    exact List.forall_mem_append.2 ⟨hfirst _ h, ih hrest⟩

/-- The names of slots are all keys of the object of slots, but one. -/
theorem nodup_ofSlots_iff {slots : List (Slot VNode)} :
    (∀ literal ∈ ObjectLiteral.ofSlots slots, literal.keys.Nodup) ↔
      (slots.map Slot.name ++ [stableKey]).Nodup := by
  have horder : (orderSlots (slots.map fun slot => (slot.implicit, slot.name))).Perm
      (slots.map Slot.name) := by
    rw [orderSlots, ← List.map_append]
    refine ((List.filter_append_perm _ _).map _).trans ?_
    rw [List.map_map]
    exact .refl _
  rw [ObjectLiteral.ofSlots]
  cases slots with
  | nil => simp
  | cons slot slots =>
    rw [List.isEmpty_cons, if_neg Bool.false_ne_true, List.forall_mem_singleton]
    exact (horder.append_right _).nodup_iff

end Nodes

/-! ## Siblings -/

/-- Whether a node is clear tells whether what it is built as is: the element itself, or its content
where it is passed as a slot. -/
def Tells : Node → Prop
  | .element tag children span =>
    (∀ locals v, buildElement tag span (Sibling.ofNodes children) locals = .ok v →
      (v.IsClear ↔ nodeIsClear (.element tag children span))) ∧
    ∀ locals vs, buildSiblings locals (Sibling.ofNodes children) = .ok vs →
      ((∀ v ∈ vs, v.IsClear) ↔ nodesAreClear children)
  | _ => True

section Siblings

variable {locals : List Text} {nodes : List Node} {vs : List VNode}

/-- The nodes of siblings are clear if and only if the siblings are. -/
theorem isClear_siblings (htells : ∀ node ∈ nodes, Tells node)
    (h : buildSiblings locals (Sibling.ofNodes nodes) = .ok vs) :
    (∀ v ∈ vs, v.IsClear) ↔ nodesAreClear nodes := by
  rw [nodesAreClear_iff]
  constructor
  · intro hclear node hnode
    obtain ⟨before, behind, rfl⟩ := List.append_of_mem hnode
    cases node with
    | element tag children span =>
      -- the element stands somewhere in the nodes
      rw [ofNodes_around] at h
      obtain ⟨front, wraps, back, hcarries, -⟩ := exists_carries_siblings () (fun _ => children) h
      obtain ⟨v, hv⟩ := hcarries.exists_ok
      obtain rfl := Except.ok.inj (h.symm.trans (hcarries.ok (j := ()) hv))
      have hfilled := hclear _ (List.mem_append_right _ (List.mem_cons_self ..))
      exact ((htells _ hnode).1 locals v hv).1 (isClear_of_fillAll wraps hfilled)
    | text content span => rfl
    | interpolation exp span => rfl
  · intro hclear v hv
    -- what a group becomes is made of what the elements in it become
    obtain ⟨g, hg, hbuild⟩ := exists_of_forall₂_mem (buildSiblings_eq_ok.1 h) hv
    have helement : ∀ tag span build content, Sibling.element tag span build content ∈
        Sibling.ofNodes nodes → ∀ w, build locals = .ok w → w.IsClear := by
      intro tag span build content hmem w hw
      rw [ofNodes_eq_map] at hmem
      obtain ⟨node, hnode, heq⟩ := List.mem_map.1 hmem
      cases node with
      | element tag' children span' =>
        cases heq
        exact ((htells _ hnode).1 locals w hw).2 (hclear _ hnode)
      | text content span' => cases heq
      | interpolation exp span' => cases heq
    have hall := groups_forall (Q := (· ∈ Sibling.ofNodes nodes)) (fun _ hs => hs) g hg
    cases g with
    | chain first others =>
      obtain ⟨w, hchained, rfl⟩ := buildChain_eq_ok.1 hbuild
      have hw : w.IsClear := by
        refine isClear_of_chained hchained fun b hb w' hw' => ?_
        obtain ⟨content, hmem⟩ := hall b hb
        exact helement _ _ _ _ hmem w' hw'
      exact hw
    | stray span => cases hbuild
    | single build =>
      obtain ⟨tag, span, content, hmem⟩ := hall
      exact helement _ _ _ _ hmem v hbuild
    | run run =>
      obtain ⟨parts, -, rfl⟩ := map_eq_ok.1 hbuild
      exact List.forall_mem_nil _

end Siblings

/-! ## Slots -/

section Slots

variable {locals : List Text} {tag : Tag} {children : List Node}

theorem slotName?_eq (node : Node) :
    slotName? node =
      (slotDirective? (Sibling.ofNode node)).map fun d => d.arg.getD "default".toList := by
  cases node with
  | element tag children span =>
    simp only [slotName?, Sibling.ofNode, slotDirective?]
    split <;> rfl
  | text content span => rfl
  | interpolation exp span => rfl

theorem ownChildren_ofNodes (tag : Tag) (children : List Node) :
    ownChildren tag (Sibling.ofNodes children) = Sibling.ofNodes (ownNodes tag children) := by
  rw [ownChildren, ownNodes]
  split
  · rfl
  · rw [ofNodes_eq_map, ofNodes_eq_map, List.filter_map]
    congr 1
    refine List.filter_congr fun node _ => ?_
    rw [slotName?_eq, Option.isNone_map]
    rfl

theorem all_isBlank_ofNodes (nodes : List Node) :
    (Sibling.ofNodes nodes).all Sibling.isBlank = nodes.all Node.isBlank := by
  rw [ofNodes_eq_map, List.all_map]
  exact congrArg _ (funext isBlank_ofNode)

/-- A node that is no element gives no keys. -/
theorem nodesAreClear_of_no_element {nodes : List Node}
    (h : (Sibling.ofNodes nodes).all fun c => !c.isElement) : nodesAreClear nodes := by
  rw [nodesAreClear_iff]
  intro node hnode
  rw [ofNodes_eq_map, List.all_map] at h
  have helement := List.all_eq_true.1 h node hnode
  cases node with
  | element tag children span => cases helement
  | text content span => rfl
  | interpolation exp span => rfl

/-- A blank node gives no keys. -/
theorem nodesAreClear_of_blank {nodes : List Node} (h : nodes.all Node.isBlank) :
    nodesAreClear nodes := by
  rw [nodesAreClear_iff]
  intro node hnode
  have hblank := List.all_eq_true.1 h node hnode
  cases node with
  | element tag children span => cases hblank
  | text content span => rfl
  | interpolation exp span => rfl

/-- The slots that are passed have the names of their templates, and are clear if these are. -/
theorem passed_slots {nodes : List Node} {named : List (Slot VNode)}
    (htells : ∀ node ∈ nodes, Tells node)
    (h : Forall₂ (fun built slot => built = .ok slot)
      ((Sibling.ofNodes nodes).filterMap (namedSlot? locals)) named) :
    named.map Slot.name = nodes.filterMap slotName? ∧
      ((∀ slot ∈ named, ∀ v ∈ slot.children, v.IsClear) ↔
        ∀ node ∈ nodes, (slotName? node).isSome → nodeIsClear node) := by
  induction nodes generalizing named with
  | nil =>
    cases h
    exact ⟨rfl, by simp⟩
  | cons node nodes ih =>
    obtain ⟨htell, hrestTells⟩ := List.forall_mem_cons.1 htells
    rw [Sibling.ofNodes, List.filterMap_cons] at h
    -- a node that is no slot adds none
    have hskip : namedSlot? locals (Sibling.ofNode node) = none → slotName? node = none →
        named.map Slot.name = (node :: nodes).filterMap slotName? ∧
          ((∀ slot ∈ named, ∀ v ∈ slot.children, v.IsClear) ↔
            ∀ n ∈ node :: nodes, (slotName? n).isSome → nodeIsClear n) := by
      intro hnone hname
      rw [hnone] at h
      obtain ⟨hnames, hclear⟩ := ih hrestTells h
      constructor
      · rw [List.filterMap_cons, hname]
        exact hnames
      · rw [hclear, List.forall_mem_cons, hname]
        simp
    cases node with
    | text content span => exact hskip rfl rfl
    | interpolation exp span => exact hskip rfl rfl
    | element tag children span =>
      have hname := slotName?_eq (.element tag children span)
      cases hd : slotDirective? (Sibling.ofNode (.element tag children span)) with
      | none =>
        rw [hd] at hname
        refine hskip ?_ hname
        rw [Sibling.ofNode] at hd ⊢
        simp only [namedSlot?, hd]
      | some d =>
        rw [hd] at hname
        have hnamed : namedSlot? locals (Sibling.ofNode (.element tag children span)) =
            some (buildSlot locals d tag fun locals =>
              buildSiblings locals (Sibling.ofNodes children)) := by
          rw [Sibling.ofNode] at hd ⊢
          simp only [namedSlot?, hd]
        have htag : tag.kind = .template ∧ tag.directive? "slot".toList = some d := by
          rw [Sibling.ofNode, slotDirective?] at hd
          split at hd
          · exact ⟨‹_›, hd⟩
          · cases hd
        rw [hnamed] at h
        rcases h with _ | ⟨hslot, hrest⟩
        obtain ⟨-, vs, hvs, rfl⟩ := (buildSlot_eq_ok htag.2).1 hslot
        obtain ⟨hnames, hclear⟩ := ih hrestTells hrest
        have hnode : nodeIsClear (.element tag children span) = nodesAreClear children := by
          rw [nodeIsClear, htag.1]
        rw [List.filterMap_cons, hname, List.map_cons, hnames, List.forall_mem_cons,
          List.forall_mem_cons, hclear, hname, hnode, ← htell.2 _ vs hvs]
        exact ⟨rfl, by simp⟩

/-- The slots of a component have the names that it is passed, and are clear if its children are. -/
theorem slots_of_buildSlots {slots : List (Slot VNode)} (htells : ∀ node ∈ children, Tells node)
    (h : buildSlots locals tag (Sibling.ofNodes children) = .ok slots) :
    slots.map Slot.name = passedNames tag children ∧
      ((∀ slot ∈ slots, ∀ v ∈ slot.children, v.IsClear) ↔ nodesAreClear children) := by
  obtain ⟨named, own, rfl, hnamed, hown⟩ := buildSlots_eq_ok.1 h
  rw [ownChildren_ofNodes, all_isBlank_ofNodes] at hown
  -- what stands in the component by itself
  have hownTells : ∀ node ∈ ownNodes tag children, Tells node := by
    intro node hnode
    rw [ownNodes] at hnode
    split at hnode
    · exact htells node hnode
    · exact htells node (List.mem_of_mem_filter hnode)
  have hown : own.map Slot.name =
        (if (ownNodes tag children).all Node.isBlank then [] else ["default".toList]) ∧
      ((∀ slot ∈ own, ∀ v ∈ slot.children, v.IsClear) ↔ nodesAreClear (ownNodes tag children)) := by
    rcases hown with ⟨hblank, rfl⟩ | ⟨hblank, vs, hvs, rfl⟩
    · rw [hblank, nodesAreClear_of_blank hblank]
      exact ⟨rfl, by simp⟩
    · rw [hblank, ← isClear_siblings hownTells hvs, List.forall_mem_singleton]
      exact ⟨rfl, Iff.rfl⟩
  -- what it is passed
  have hpassed : named.map Slot.name =
        (if tag.has "slot".toList then [] else children.filterMap slotName?) ∧
      ((∀ slot ∈ named, ∀ v ∈ slot.children, v.IsClear) ↔
        (tag.has "slot".toList = false →
          ∀ node ∈ children, (slotName? node).isSome → nodeIsClear node)) := by
    rw [passedSlots] at hnamed
    cases hhas : tag.has "slot".toList with
    | true =>
      rw [hhas] at hnamed
      cases hnamed
      exact ⟨rfl, by simp⟩
    | false =>
      rw [hhas] at hnamed
      obtain ⟨hnames, hclear⟩ := passed_slots htells hnamed
      exact ⟨hnames, hclear.trans ⟨fun hall _ => hall, fun hall => hall rfl⟩⟩
  refine ⟨?_, ?_⟩
  · rw [List.map_append, hpassed.1, hown.1, passedNames]
  · rw [List.forall_mem_append, hpassed.2, hown.2, nodesAreClear_iff, nodesAreClear_iff, ownNodes]
    cases tag.has "slot".toList with
    | true => simp
    | false =>
      simp only [forall_prop_of_true, Bool.false_eq_true, if_false, List.mem_filter]
      constructor
      · rintro ⟨hsome, hnone⟩ node hnode
        cases hname : slotName? node with
        | none => exact hnone node ⟨hnode, by rw [hname]; rfl⟩
        | some name => exact hsome node hnode (by rw [hname]; rfl)
      · exact fun hall => ⟨fun node hnode _ => hall node hnode, fun node hnode => hall node hnode.1⟩

end Slots

/-! ## Elements -/

section Elements

variable {locals : List Text} {tag : Tag} {children : List Node} {span : Span} {v : VNode}

/-- A native element that draws its children is clear if its props and its children are. -/
theorem isClear_native (hkind : tag.kind = .native) (htells : ∀ node ∈ children, Tells node)
    (h : buildNative locals tag (Sibling.ofNodes children) = .ok v) :
    v.IsClear ↔ nodeIsClear (.element tag children span) := by
  obtain ⟨props, content, hprops, hcontent, rfl⟩ := buildNative_eq_ok.1 h
  have hnode : nodeIsClear (.element tag children span) ↔
      (∀ literal ∈ ObjectLiteral.ofProps props, literal.keys.Nodup) ∧
        (drawsChildren tag = true → nodesAreClear children) := by
    rw [nodeIsClear, hkind, nodup_ofProps_iff hprops]
    cases drawsChildren tag <;> simp
  rw [hnode]
  cases shows_of_buildContent hkind hcontent with
  | given hd hexp he hdraws =>
    rw [hdraws]
    simp [Content.node, VNode.IsClear, VNode.literals]
  | nothing hnone =>
    refine (and_iff_left fun hdraws => ?_).symm
    refine nodesAreClear_of_no_element ?_
    rw [hnone hdraws]
    rfl
  | run hdraws hall hrun => exact (and_iff_left fun _ => nodesAreClear_of_no_element hall).symm
  | nodes hdraws hvs =>
    rw [hdraws, forall_prop_of_true rfl, ← isClear_siblings htells hvs, ← isClear_literalsAll]
    exact List.forall_mem_append

theorem isClear_plain (htells : ∀ node ∈ children, Tells node)
    (h : buildPlain tag span (Sibling.ofNodes children) locals = .ok v) :
    v.IsClear ↔ nodeIsClear (.element tag children span) := by
  rw [buildPlain] at h
  cases hkind : tag.kind with
  | template =>
    rw [hkind] at h
    obtain ⟨vs, hvs, rfl⟩ := map_eq_ok.1 h
    rw [nodeIsClear, hkind]
    exact isClear_literalsAll.trans (isClear_siblings htells hvs)
  | outlet =>
    rw [hkind] at h
    obtain ⟨name, props, fallback, -, hprops, hfallback, rfl⟩ := buildOutlet_eq_ok.1 h
    rw [nodeIsClear, hkind]
    dsimp only
    rw [Bool.and_eq_true, ← nodup_ofProps_iff hprops, ← isClear_siblings htells hfallback,
      ← isClear_literalsAll]
    exact List.forall_mem_append
  | component =>
    rw [hkind] at h
    obtain ⟨target, props, slots, -, hprops, hslots, rfl⟩ := buildComponent_eq_ok.1 h
    obtain ⟨hnames, hclear⟩ := slots_of_buildSlots htells hslots
    rw [nodeIsClear, hkind]
    dsimp only
    rw [Bool.and_eq_true, Bool.and_eq_true, ← nodup_ofProps_iff hprops, slotsAreClear,
      decide_eq_true_eq, ← hnames, ← nodup_ofSlots_iff, ← hclear, ← isClear_literalsSlots]
    exact List.forall_mem_append.trans (and_congr_right fun _ => List.forall_mem_append)
  | native =>
    rw [hkind] at h
    exact isClear_native hkind htells h

end Elements

/-! ## Templates -/

mutual

theorem tells : ∀ node : Node, Tells node
  | .element tag children span => by
    have hchildren := tellsAll children
    refine ⟨fun locals v h => ?_, fun locals vs h => isClear_siblings hchildren h⟩
    obtain ⟨-, loop, item, -, hitem, rfl⟩ := buildElement_eq_ok.1 h
    exact (isClear_repeated loop).trans (isClear_plain hchildren hitem)
  | .text .. => trivial
  | .interpolation .. => trivial

theorem tellsAll : ∀ nodes : List Node, ∀ node ∈ nodes, Tells node
  | [] => List.forall_mem_nil _
  | node :: nodes => List.forall_mem_cons.2 ⟨tells node, tellsAll nodes⟩

end

/-- The object literals in the code of a template that compiles: each is written there, and none of
them has a key twice if and only if the template gives no key twice. -/
theorem compile_keys {mode : Mode} {markup : Text} {nodes : List Node} {code : RenderCode}
    (hparse : parse markup = .ok nodes) (hcompile : compile mode markup = .ok code) :
    ∃ roots, buildTemplate nodes = .ok roots ∧ code = RenderCode.ofRoots mode roots ∧
      (∀ literal ∈ VNode.literalsAll roots, ∃ depth, literal.print depth <:+: code.code) ∧
      ((∀ literal ∈ VNode.literalsAll roots, literal.keys.Nodup) ↔ nodesAreClear nodes) := by
  rw [compile_of_parse mode hparse] at hcompile
  obtain ⟨roots, hroots, rfl⟩ := generate_eq_ok.1 hcompile
  refine ⟨roots, hroots, rfl, fun literal h => mem_literals_infix mode h, ?_⟩
  exact isClear_literalsAll.trans (isClear_siblings (tellsAll nodes) hroots)

/-- An element that listens for one event twice, each time for another key. -/
def twiceListening : List Node :=
  let listener (exp : String) (key : String) (span : Span) : Item :=
    .directive ⟨"on".toList, some "keyup".toList, some exp.toList, [key.toList], span⟩
  [.element ⟨"input".toList, .native, [listener "a" "enter" ⟨7, 23⟩, listener "b" "esc" ⟨24, 38⟩]⟩
    [] ⟨0, 39⟩]

/-- Its code, in which the second listener takes the place of the first. -/
def twiceListeningCode : RenderCode where
  code :=
    "const \x7b withKeys: _withKeys, createVNode: _createVNode \x7d = Vue\n\n".toList ++
      "return function render(_ctx, _cache) \x7b\n  return _createVNode(\"input\", ".toList ++
      "\x7b onKeyup: _withKeys(_ctx.a, [\"enter\"]), ".toList ++
      "onKeyup: _withKeys(_ctx.b, [\"esc\"]) \x7d)\n\x7d\n".toList
  helpers := [.withKeys, .createVNode]
  components := []

theorem compile_keys_twiceListening :
    let markup := "<input @keyup.enter=\"a\" @keyup.esc=\"b\">".toList
    parse markup = .ok twiceListening ∧ compile .function markup = .ok twiceListeningCode ∧
      ∃ roots, buildTemplate twiceListening = .ok roots ∧
        twiceListeningCode = RenderCode.ofRoots .function roots ∧
        ∃ literal ∈ VNode.literalsAll roots, ¬literal.keys.Nodup := by
  intro markup
  have hparse : parse markup = .ok twiceListening := by decide +kernel
  have hcompile : compile .function markup = .ok twiceListeningCode := by decide +kernel
  obtain ⟨roots, hroots, hcode, -, hclear⟩ := compile_keys hparse hcompile
  have hclash : ¬nodesAreClear twiceListening := by decide +kernel
  refine ⟨hparse, hcompile, roots, hroots, hcode, ?_⟩
  by_contra hall
  push Not at hall
  exact hclash (hclear.1 hall)

end ModuleServer.Render
