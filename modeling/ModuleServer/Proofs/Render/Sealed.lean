import ModuleServer.Proofs.Expression.Misread
import ModuleServer.Proofs.Render.Given
import ModuleServer.Proofs.Render.Guard
import ModuleServer.Proofs.Render.Neutral
import ModuleServer.Proofs.Render.Parts

/-!
# Markup stays inside of the code

Whatever stands in a template, its code is balanced if its expressions are (`compile_balanced`):
tags, attributes, texts, events, modifiers and names of slots cannot break out of the code, in
either form. A balanced expression can do so only if a dollar sign of it that a backslash hides is
taken for a name (`Expression.isMisread`).

The expressions are collected from the directives and the interpolations of the nodes (`gatherAll`):
as they are written (`expressions`), and as they are put into the context (`codes`). A tag gives
parts that are neutral if its expressions are fair (`tagGives_neutralParts`), and nodes with such
parts are neutral (`VNode.isNeutral`).
-/

namespace ModuleServer.Render

open Text Template Script
open Expression (isMisread prefixNames? balanced_prefixNames?)
open List (Forall₂)

/-! ## Expressions of a template -/

/-- The expressions of a directive as they are written: the names and the source of a loop each by
itself, and what a binding without an expression stands for. -/
def expressions (d : Directive) : List Text :=
  match d.exp with
  | none => if d.name = "bind".toList then (d.arg.map camelize).toList else []
  | some exp =>
    if d.name = "for".toList then
      match cutLoop? exp with
      | some (names, source) => [names, source]
      | none => []
    else [exp]

/-- The texts of a directive that are put into the context. -/
def codes (d : Directive) : List Text :=
  match d.exp with
  | none => if d.name = "bind".toList then (d.arg.map camelize).toList else []
  | some exp =>
    if d.name = "for".toList then ((readLoop? exp).map (·.2)).toList
    else if d.name = "slot".toList then []
    else if d.name = "on".toList then [trim exp]
    else [exp]

/-- The texts that are found in the directives of items. -/
def gatherItems (f : Directive → List Text) (items : List Item) : List Text :=
  items.flatMap fun
    | .attribute _ => []
    | .directive d => f d

mutual

/-- The texts that are found in the directives of a node, and its interpolations. -/
def gather (f : Directive → List Text) : Node → List Text
  | .element tag children _ => gatherItems f tag.items ++ gatherAll f children
  | .text .. => []
  | .interpolation exp _ => [exp]

/-- The texts that are found in the directives of nodes, and their interpolations. -/
def gatherAll (f : Directive → List Text) : List Node → List Text
  | [] => []
  | node :: nodes => gather f node ++ gatherAll f nodes

end

/-- Whether all of the first texts are balanced, and none of the second is misread. -/
structure IsFair (written read : List Text) : Prop where
  /-- Texts as they are written. -/
  balanced : ∀ t ∈ written, IsBalanced t
  /-- Texts as they are put into the context. -/
  read : ∀ t ∈ read, isMisread t = false

theorem IsFair.mono {written written' read read' : List Text} (h : IsFair written read)
    (hwritten : written' ⊆ written) (hread : read' ⊆ read) : IsFair written' read' :=
  ⟨fun t ht => h.balanced t (hwritten ht), fun t ht => h.read t (hread ht)⟩

/-! ## Loops -/

/-- The names of a loop are balanced where they are written as parameters, with brackets around them
in the template or not. -/
theorem balanced_unwrap {t : Text} (h : IsBalanced t) :
    IsBalanced ('(' :: (trim (unwrap t) ++ [')'])) := by
  have hsame : IsBalanced ('(' :: (trim t ++ [')'])) := h.trim.neutral.round.balanced
  rw [Render.unwrap.eq_def]
  split
  · rename_i r
    split
    · rename_i inner hinner
      have ht : r = inner.reverse ++ [')'] := by
        rw [← List.reverse_reverse r, hinner, List.reverse_cons]
      rw [ht] at h
      exact h.trim_round
    · exact hsame
  · exact hsame

section Directives

variable {d : Directive} {locals : List Text} {t e exp : Text}

/-- The parts of a loop, as they are read, are balanced if they are as written. -/
theorem balanced_readLoop? {names source : Text} (h : ∀ t ∈ expressions d, IsBalanced t)
    (hname : d.name = "for".toList) (hexp : d.exp = some exp)
    (hread : readLoop? exp = some (names, source)) :
    IsBalanced ('(' :: (names ++ [')'])) ∧ IsBalanced source := by
  rw [readLoop?] at hread
  cases hcut : cutLoop? exp with
  | none =>
    rw [hcut] at hread
    cases hread
  | some parts =>
    obtain ⟨first, last⟩ := parts
    rw [hcut] at hread
    dsimp only at hread
    split at hread
    · cases hread
    · cases hread
      have hwritten : expressions d = [first, last] := by
        simp only [expressions, hexp, hname, if_true, hcut]
      rw [hwritten] at h
      obtain ⟨hfirst, hlast⟩ := List.forall_mem_cons.1 h
      exact ⟨balanced_unwrap hfirst.trim, (List.forall_mem_singleton.1 hlast).trim⟩

/-! ## Directives -/

/-- What is put into the context is balanced if it is as written. -/
theorem balanced_of_mem_codes (h : ∀ t ∈ expressions d, IsBalanced t) (ht : t ∈ codes d) :
    IsBalanced t := by
  cases hexp : d.exp with
  | none =>
    simp only [codes, hexp] at ht
    simp only [expressions, hexp] at h
    exact h t ht
  | some exp =>
    simp only [codes, hexp] at ht
    by_cases hfor : d.name = "for".toList
    · rw [if_pos hfor, Option.mem_toList] at ht
      obtain ⟨⟨names, source⟩, hread, rfl⟩ := Option.map_eq_some_iff.1 ht
      exact (balanced_readLoop? h hfor hexp hread).2
    · have hwritten : expressions d = [exp] := by
        simp only [expressions, hexp, if_neg hfor]
      rw [hwritten, List.forall_mem_singleton] at h
      rw [if_neg hfor] at ht
      split at ht
      · cases ht
      split at ht
      · obtain rfl := List.mem_singleton.1 ht
        exact h.trim
      · obtain rfl := List.mem_singleton.1 ht
        exact h

/-- A balanced text that is not misread is neutral in the context. -/
theorem neutral_inContext (hbalanced : IsBalanced t) (hread : isMisread t = false)
    (h : inContext locals t = .ok e) : Neutral e :=
  (balanced_prefixNames? hbalanced hread (inContext_eq_ok.1 h)).neutral

theorem IsFair.neutral_inContext (h : IsFair (expressions d) (codes d)) (ht : t ∈ codes d)
    (he : inContext locals t = .ok e) : Neutral e :=
  Render.neutral_inContext (balanced_of_mem_codes h.balanced ht) (h.read t ht) he

/-- The expression of a directive that is put into the context as it is written. -/
theorem mem_codes (hname : d.name ∉ ["for", "slot", "on"].map String.toList)
    (hexp : d.exp = some exp) : exp ∈ codes d := by
  simp only [List.map_cons, List.map_nil, List.mem_cons, List.not_mem_nil, or_false, not_or]
    at hname
  obtain ⟨hfor, hslot, hon⟩ := hname
  simp only [codes, hexp, if_neg hfor, if_neg hslot, if_neg hon, List.mem_singleton]

/-- So is what a binding stands for. -/
theorem mem_codes_bind {arg : Text} (hname : d.name = "bind".toList) (harg : d.arg = some arg) :
    d.exp.getD (camelize arg) ∈ codes d := by
  cases hexp : d.exp with
  | none => simp only [codes, hexp, hname, if_true, harg, Option.map_some, Option.toList_some,
      Option.getD_none, List.mem_singleton]
  | some exp =>
    refine mem_codes ?_ hexp
    rw [hname]
    decide

theorem IsFair.neutral_react (h : IsFair (expressions d) (codes d)) (hname : d.name = "on".toList)
    {reaction : Reaction} (hreact : react locals d.exp = .ok reaction) :
    Neutral reaction.print := by
  rcases react_cases hreact with rfl | ⟨written, bound, e, hexp, he, hreaction⟩
  · exact neutral_nothing
  have hfor : d.name ≠ "for".toList := by
    rw [hname]
    decide
  have hslot : d.name ≠ "slot".toList := by
    rw [hname]
    decide
  have hmem : trim written ∈ codes d := by
    simp only [codes, hexp, if_neg hfor, if_neg hslot, if_pos hname, List.mem_singleton]
  have hneutral := h.neutral_inContext hmem he
  rcases hreaction with rfl | rfl
  · exact hneutral
  · exact neutral_evaluate hneutral

end Directives

/-! ## Tags -/

/-- Whether the directives of items are fair. -/
def AreFair (items : List Item) : Prop :=
  ∀ d, Item.directive d ∈ items → IsFair (expressions d) (codes d)

section Tags

variable {items : List Item} {item : Item} {locals skipped : List Text} {tag : Tag} {d : Directive}
variable {exp e : Text}

/-- The expression of a directive that is put into the context as it is written. -/
theorem AreFair.neutral_expression (h : AreFair items) (hd : .directive d ∈ items)
    (hname : d.name ∉ ["for", "slot", "on"].map String.toList) (hexp : d.exp = some exp)
    (he : inContext locals exp = .ok e) : Neutral e :=
  (h d hd).neutral_inContext (mem_codes hname hexp) he

theorem isNeutral_of_contributes {a : Assignment} (h : AreFair items) (hitem : item ∈ items)
    (hcontributes : Contributes locals skipped item (some a)) : a.IsNeutral := by
  cases hcontributes with
  | plain a hkept => exact neutral_quote _
  | bind hname harg hkept he => exact (h _ hitem).neutral_inContext (mem_codes_bind hname harg) he
  | spread hname harg hexp he =>
    exact h.neutral_expression hitem (by rw [hname]; decide) hexp he
  | listener hname harg hreact =>
    exact Value.neutral_listener _ _ ((h _ hitem).neutral_react hname hreact)
  | markup hname hexp he => exact h.neutral_expression hitem (by rw [hname]; decide) hexp he

theorem neutral_keyValue? {key valueless : Text} {v : Value} (h : AreFair items)
    (hkey : keyValue? locals key valueless items = .ok (some v)) : Neutral v.print := by
  rcases keyValue?_cases hkey with ⟨a, -, rfl⟩ | ⟨d, exp, e, hd, hname, hexp, he, rfl⟩
  · exact neutral_quote _
  · exact h.neutral_expression hd (by rw [hname]; decide) hexp he

theorem neutral_testOf {test : Text} (h : AreFair tag.items)
    (htest : testOf locals tag = .ok (some test)) : Neutral test := by
  obtain ⟨d, exp, hd, hname, hexp, he⟩ := testOf_cases htest
  refine h.neutral_expression hd ?_ hexp he
  rcases hname with hname | hname <;> rw [hname] <;> decide

/-- The source and the names of a loop are neutral where they stand. -/
theorem neutral_loopOf {source names : Text} (h : AreFair tag.items)
    (hloop : loopOf locals tag = .ok (some (source, names))) :
    Neutral source ∧ Neutral ('(' :: (names ++ [')'])) := by
  obtain ⟨d, exp, written, hd, hname, hexp, hread, he⟩ := loopOf_cases hloop
  have hmem : written ∈ codes d := by
    simp only [codes, hexp, hname, if_true, hread, Option.map_some, Option.toList_some,
      List.mem_singleton]
  obtain ⟨hnames, -⟩ := balanced_readLoop? (h d hd).balanced hname hexp hread
  exact ⟨(h d hd).neutral_inContext hmem he, hnames.neutral⟩

/-- The parameters of a slot are neutral between their brackets. -/
theorem neutral_slotParams (h : AreFair tag.items) :
    Neutral ('(' :: (slotParams tag ++ [')'])) := by
  rcases slotParams_cases tag with hnone | ⟨d, exp, hd, hname, hexp, hsome⟩
  · rw [hnone]
    exact Neutral.nil.round
  · have hbalanced := (h d hd).balanced
    have hfor : d.name ≠ "for".toList := by
      rw [hname]
      decide
    simp only [expressions, hexp, if_neg hfor, List.forall_mem_singleton] at hbalanced
    rw [hsome]
    exact hbalanced.trim.neutral.round

end Tags

/-! ## Parts -/

/-- Parts that are neutral where they stand in the code. -/
def neutralParts : Parts where
  text p := Neutral p.print
  props props := ∀ a ∈ props, a.IsNeutral
  target target := Neutral target.print
  slot _ params := Neutral ('(' :: (params ++ [')']))
  outlet name := Neutral name.print
  loop source names := Neutral source ∧ Neutral ('(' :: (names ++ [')']))
  test test := Neutral test

theorem tagGives_neutralParts {tag : Tag} (span : Span) (h : AreFair tag.items) :
    TagGives neutralParts tag span where
  name _ := trivial
  props hprops a ha := by
    obtain ⟨item, hitem, hcontributes⟩ := exists_contributes hprops a ha
    exact isNeutral_of_contributes h hitem hcontributes
  label hd hexp he := by
    obtain ⟨hmem, hname⟩ := mem_of_directive? hd
    exact TextPart.neutral_shown
      (h.neutral_expression hmem (by rw [hname]; decide) (required_eq_ok.1 hexp) he)
  target _ htarget := by
    rcases buildTarget_cases htarget with ⟨-, rfl⟩ | ⟨v, hv, rfl⟩
    · exact neutral_componentVariable tag.name
    · exact neutral_helper .resolveDynamicComponent
        (List.forall_mem_singleton.2 (neutral_keyValue? h hv))
  slot _ := neutral_slotParams h
  ownSlot := neutral_slotParams h
  outlet {_ name} hname := by
    cases name with
    | none => exact neutral_quote _
    | some v => exact neutral_keyValue? h hname
  loop := neutral_loopOf h
  test := neutral_testOf h

mutual

theorem VNode.isNeutral : ∀ {v : VNode}, v.All neutralParts → v.IsNeutral
  | .text _, hrun => .text hrun
  | .leaf tag _, ⟨_, hprops⟩ => .leaf tag hprops
  | .labelled tag .., ⟨_, hprops, hrun⟩ => .labelled tag hprops hrun
  | .parent tag .., ⟨_, hprops, hchildren⟩ => .parent tag hprops (VNode.isNeutral_all hchildren)
  | .component .., ⟨htarget, hprops, hslots⟩ =>
    .component htarget hprops (VNode.isNeutral_slots hslots)
  | .outlet .., ⟨hname, hprops, hfallback⟩ =>
    .outlet hname hprops (VNode.isNeutral_all hfallback)
  | .fragment _, hchildren => .fragment (VNode.isNeutral_all hchildren)
  | .list .., ⟨⟨hsource, hnames⟩, hitem⟩ => .list hsource hnames (VNode.isNeutral hitem)
  | .chain _, hbody => .chain (VNode.isNeutral hbody)
  | .choice .., ⟨htest, hyes, hno⟩ =>
    .choice htest (VNode.isNeutral hyes) (VNode.isNeutral hno)
  | .hidden, _ => .hidden

theorem VNode.isNeutral_all : ∀ {vs : List VNode}, VNode.AllIn neutralParts vs →
    ∀ v ∈ vs, v.IsNeutral
  | [], _ => nofun
  | _ :: _, ⟨hfirst, hothers⟩ =>
    List.forall_mem_cons.2 ⟨VNode.isNeutral hfirst, VNode.isNeutral_all hothers⟩

theorem VNode.isNeutral_slots : ∀ {slots : List (Slot VNode)},
    VNode.AllInSlots neutralParts slots → ∀ slot ∈ slots, slot.IsNeutral
  | [], _ => nofun
  | ⟨_, _, _, _⟩ :: _, ⟨hparams, hchildren, hothers⟩ =>
    List.forall_mem_cons.2
      ⟨⟨hparams, VNode.isNeutral_all hchildren⟩, VNode.isNeutral_slots hothers⟩

end

/-! ## Templates -/

/-- The directives of items are fair if what is found in them is. -/
theorem areFair_of_gatherItems {items : List Item}
    (h : IsFair (gatherItems expressions items) (gatherItems codes items)) : AreFair items := by
  have hsubset : ∀ f : Directive → List Text, ∀ d, Item.directive d ∈ items →
      f d ⊆ gatherItems f items := by
    intro f d hd t ht
    exact List.mem_flatMap.2 ⟨_, hd, ht⟩
  exact fun d hd => h.mono (hsubset _ d hd) (hsubset _ d hd)

theorem gather_subset {f : Directive → List Text} {node : Node} {nodes : List Node}
    (h : node ∈ nodes) : gather f node ⊆ gatherAll f nodes := by
  induction nodes with
  | nil => cases h
  | cons other nodes ih =>
    rw [gatherAll]
    rcases List.mem_cons.1 h with rfl | h
    · exact List.subset_append_left _ _
    · exact List.subset_append_of_subset_right _ (ih h)

/-- The texts of a node that is drawn are found among those of the template. -/
theorem gather_subset_of_drawn {f : Directive → List Text} {node : Node} {nodes : List Node}
    (h : DrawnIn node nodes) : gather f node ⊆ gatherAll f nodes := by
  induction h with
  | here h => exact gather_subset h
  | inside h _ _ ih =>
    refine List.Subset.trans ih (List.Subset.trans ?_ (gather_subset h))
    rw [gather]
    exact List.subset_append_right _ _

/-- Nodes with fair expressions are built to neutral nodes. -/
theorem isNeutral_buildTemplate {nodes : List Node} {roots : List VNode}
    (h : IsFair (gatherAll expressions nodes) (gatherAll codes nodes))
    (hbuild : buildTemplate nodes = .ok roots) : ∀ v ∈ roots, v.IsNeutral := by
  refine VNode.isNeutral_all (all_of_drawn (fun node hdrawn => ?_) hbuild)
  have hnode := h.mono (gather_subset_of_drawn hdrawn) (gather_subset_of_drawn hdrawn)
  cases node with
  | element tag children span =>
    rw [gather, gather] at hnode
    exact tagGives_neutralParts span (areFair_of_gatherItems
      (hnode.mono (List.subset_append_left _ _) (List.subset_append_left _ _)))
  | text content span => exact neutral_quote content
  | interpolation exp span =>
    intro locals e he
    have hexp : exp ∈ [exp] := List.mem_singleton.2 rfl
    exact TextPart.neutral_shown
      (neutral_inContext (hnode.balanced exp hexp) (hnode.read exp hexp) he)

/-- The code of a template is balanced, in either form, if its expressions are: each interpolation,
each expression of a directive, the names and the source of a loop each by itself, what a binding
without an expression stands for, and the parameters of each slot. The exception is an expression
that is misread. Nothing else that stands in the template matters. -/
theorem compile_balanced {mode : Mode} {markup : Text} {nodes : List Node} {code : RenderCode}
    (hparse : parse markup = .ok nodes) (hcompile : compile mode markup = .ok code)
    (hbalanced : ∀ t ∈ gatherAll expressions nodes, IsBalanced t)
    (hread : ∀ t ∈ gatherAll codes nodes, isMisread t = false) : IsBalanced code.code := by
  rw [compile_of_parse mode hparse] at hcompile
  obtain ⟨roots, hroots, rfl⟩ := generate_eq_ok.1 hcompile
  exact balanced_ofRoots mode (isNeutral_buildTemplate ⟨hbalanced, hread⟩ hroots)

/-- A template with brackets in its attributes, its strings and its template literals. -/
def bracketTemplate : List Node :=
  [.element ⟨['p'], .native,
    [.directive ⟨"for".toList, none, some "(x, i) in ['(']".toList, [], ⟨3, 26⟩⟩,
      .attribute ⟨"title".toList, some "\x7d`(".toList, ⟨27, 38⟩⟩,
      .directive ⟨"bind".toList, some "key".toList, some ['i'], [], ⟨39, 47⟩⟩]⟩
    [.interpolation "`]$\x7bx\x7d`".toList ⟨48, 61⟩] ⟨0, 65⟩]

/-- The code of this template. -/
def bracketCode : RenderCode where
  code :=
    "const \x7b Fragment: _Fragment, renderList: _renderList, ".toList ++
      "toDisplayString: _toDisplayString, createVNode: _createVNode \x7d = Vue\n\n".toList ++
      "return function render(_ctx, _cache) \x7b\n".toList ++
      "  return _createVNode(_Fragment, null, _renderList(['('], (x, i) => \x7b\n".toList ++
      "    return _createVNode(\"p\", \x7b title: \"\x7d`(\", key: i \x7d, ".toList ++
      "_toDisplayString(`]$\x7bx\x7d`))\n  \x7d))\n\x7d\n".toList
  helpers := [.fragment, .renderList, .toDisplayString, .createVNode]
  components := []

theorem compile_balanced_bracketTemplate :
    let markup := "<p v-for=\"(x, i) in ['(']\" title=\"\x7d`(\" :key=\"i\">".toList ++
      "\x7b\x7b `]$\x7bx\x7d` \x7d\x7d</p>".toList
    parse markup = .ok bracketTemplate ∧ compile .function markup = .ok bracketCode ∧
      (∀ t ∈ gatherAll expressions bracketTemplate, IsBalanced t) ∧
      (∀ t ∈ gatherAll codes bracketTemplate, isMisread t = false) ∧
      IsBalanced bracketCode.code := by
  intro markup
  have hparse : parse markup = .ok bracketTemplate := by decide +kernel
  have hcompile : compile .function markup = .ok bracketCode := by decide +kernel
  have hbalanced : ∀ t ∈ gatherAll expressions bracketTemplate, IsBalanced t := by decide +kernel
  have hread : ∀ t ∈ gatherAll codes bracketTemplate, isMisread t = false := by decide +kernel
  exact ⟨hparse, hcompile, hbalanced, hread, compile_balanced hparse hcompile hbalanced hread⟩

end ModuleServer.Render
