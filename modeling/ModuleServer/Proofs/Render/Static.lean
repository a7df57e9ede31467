import ModuleServer.Proofs.Render.Drawn
import ModuleServer.Proofs.Template.Print

/-!
# Static templates

A template of native elements, attributes and text is compiled to code that draws what the template
says (`generate_markup`).

* `groups_static`: siblings of such a template are groups by themselves.
* `builds_node` goes over the nodes; `builds_element` is what one element adds.
-/

namespace ModuleServer.Render

open Text Template
open List (Forall₂)

/-! ## Attributes -/

section Attributes

/-- The name and the value of an attribute. -/
def namedValue (a : Attribute) : Text × Text :=
  (a.name, a.value.getD [])

/-- A tag has markup if it has nothing but attributes, of different names. -/
theorem exists_attributes {items : List Item} {attributes : List (Text × Text)}
    (h : Markup.ofItems? items = some attributes) :
    ∃ as : List Attribute, items = as.map .attribute ∧ attributes = as.map namedValue ∧
      (attributes.map Prod.fst).Nodup := by
  rw [Markup.ofItems?, Option.filter_eq_some_iff] at h
  obtain ⟨hitems, hnodup⟩ := h
  have hall : ∃ as : List Attribute, items = as.map .attribute ∧
      attributes = as.map namedValue := by
    clear hnodup
    induction items generalizing attributes with
    | nil =>
      obtain rfl : [] = attributes := Option.some.inj hitems
      exact ⟨[], rfl, rfl⟩
    | cons item items ih =>
      rw [List.mapM_cons] at hitems
      obtain ⟨first, hfirst, hitems⟩ := Option.bind_eq_some_iff.1 hitems
      obtain ⟨others, hothers, hitems⟩ := Option.bind_eq_some_iff.1 hitems
      obtain rfl : first :: others = attributes := Option.some.inj hitems
      obtain ⟨as, rfl, rfl⟩ := ih hothers
      rcases item with a | d
      · obtain rfl : namedValue a = first := Option.some.inj hfirst
        exact ⟨a :: as, rfl, rfl⟩
      · simp [Markup.ofItem?] at hfirst
  obtain ⟨as, hitems, hattributes⟩ := hall
  exact ⟨as, hitems, hattributes, of_decide_eq_true hnodup⟩

variable (as : List Attribute)

theorem refuseDynamic_attributes : refuseDynamic (as.map .attribute) = .ok () := by
  induction as with
  | nil => rfl
  | cons a as ih => exact ih

theorem assignments_attributes (locals : List Text) :
    assignments locals [] (as.map .attribute) = .ok ((as.map namedValue).map contribution) := by
  induction as with
  | nil => rfl
  | cons a as ih =>
    rw [List.map_cons, assignments, ih]
    rfl

theorem directive?_attributes (name : Text) (kind : Kind) (key : Text) :
    Tag.directive? ⟨name, kind, as.map .attribute⟩ key = none := by
  rw [Tag.directive?, List.findSome?_eq_none_iff]
  intro item hitem
  obtain ⟨a, -, rfl⟩ := List.mem_map.1 hitem
  rfl

/-- Attributes leave the content of an element to its children. -/
theorem buildContent_attributes (name : Text) (locals : List Text) (children : List Sibling) :
    buildContent locals ⟨name, .native, as.map .attribute⟩ children =
      if children.isEmpty then .ok .none
      else if children.all fun c => !c.isElement then (textRun locals children).map .text
      else (buildSiblings locals children).map .nodes := by
  rw [buildContent, directive?_attributes, Tag.has, directive?_attributes]
  rfl

end Attributes

/-! ## Building -/

section Building

/-- The group that a sibling makes by itself. -/
def Sibling.group : Sibling → Group
  | .element _ _ build _ => .single build
  | sibling => .run [sibling]

/-- What a node is built as draws the markup of the node. -/
def Builds (node : Node) (m : Markup) : Prop :=
  ∀ locals, ∃ v, (Sibling.ofNode node).group.build locals = .ok v ∧ Draws v m

theorem builds_text (content : Text) (span : Span) :
    Builds (.text content span) (.text content) :=
  fun _ => ⟨.text [.literal content], rfl, draws_text content⟩

section Siblings

variable {nodes : List Node} {forest : List Markup} {preformatted behindSibling : Bool}

theorem exists_of_ofNodes? {node : Node} (h : Markup.ofNodes? (node :: nodes) = some forest) :
    ∃ m ms, Markup.ofNode? node = some m ∧ Markup.ofNodes? nodes = some ms ∧ forest = m :: ms := by
  rw [Markup.ofNodes?] at h
  obtain ⟨m, hm, h⟩ := Option.bind_eq_some_iff.1 h
  obtain ⟨ms, hms, h⟩ := Option.map_eq_some_iff.1 h
  exact ⟨m, ms, hm, hms, h.symm⟩

theorem exists_of_ofNode? {tag : Tag} {children : List Node} {span : Span} {m : Markup}
    (h : Markup.ofNode? (.element tag children span) = some m) :
    ∃ attributes ms, tag.kind = .native ∧ Markup.ofItems? tag.items = some attributes ∧
      Markup.ofNodes? children = some ms ∧ m = .element tag.name attributes ms := by
  rw [Markup.ofNode?] at h
  split at h
  · rename_i hkind
    obtain ⟨attributes, hitems, h⟩ := Option.bind_eq_some_iff.1 h
    obtain ⟨ms, hms, h⟩ := Option.map_eq_some_iff.1 h
    exact ⟨attributes, ms, hkind, hitems, hms, h.symm⟩
  · simp at h

theorem has_static {tag : Tag} {attributes : List (Text × Text)}
    (h : Markup.ofItems? tag.items = some attributes) (key : Text) : tag.has key = false := by
  obtain ⟨as, hitems, -, -⟩ := exists_attributes h
  obtain ⟨name, kind, items⟩ := tag
  subst hitems
  rw [Tag.has, directive?_attributes]
  rfl

/-- Behind a text of static siblings stands an element. -/
theorem isElement_of_static {node : Node} {m : Markup} (h : Markup.ofNode? node = some m)
    (htext : node.isText = false) : (Sibling.ofNode node).isElement = true := by
  cases node with
  | element => rfl
  | text => simp [Node.isText] at htext
  | interpolation => simp [Markup.ofNode?] at h

/-- Static siblings are groups by themselves. -/
theorem groups_static (hspaced : Node.isSpaced preformatted behindSibling nodes)
    (h : Markup.ofNodes? nodes = some forest) :
    groups (Sibling.ofNodes nodes) = (Sibling.ofNodes nodes).map Sibling.group := by
  induction nodes generalizing behindSibling forest with
  | nil =>
    rw [Sibling.ofNodes, groups]
    rfl
  | cons node nodes ih =>
    obtain ⟨m, ms, hm, hms, rfl⟩ := exists_of_ofNodes? h
    rw [Sibling.ofNodes, List.map_cons]
    cases node with
    | element tag children span =>
      -- no directive ties the element to its siblings
      obtain ⟨attributes, -, -, hitems, -⟩ := exists_of_ofNode? hm
      have hif : ¬tag.has "if".toList := Bool.eq_false_iff.1 (has_static hitems _)
      have halternative : isAlternative tag = false := by
        rw [isAlternative, has_static hitems, has_static hitems]
        rfl
      rw [Sibling.ofNode, groups, if_neg hif, if_neg (by simp [halternative]), ih hspaced hms]
      rfl
    | text content span =>
      simp only [Node.isSpaced, Bool.and_eq_true, Bool.not_eq_true'] at hspaced
      obtain ⟨⟨⟨-, hnext⟩, -⟩, hrest⟩ := hspaced
      -- what follows a text is an element, so the run of texts is this one
      have hstop : ((Sibling.ofNodes nodes).takeWhile fun s => !s.isElement) = [] ∧
          ((Sibling.ofNodes nodes).dropWhile fun s => !s.isElement) = Sibling.ofNodes nodes := by
        cases nodes with
        | nil => exact ⟨rfl, rfl⟩
        | cons next nodes =>
          obtain ⟨_, _, hnextMarkup, -, -⟩ := exists_of_ofNodes? hms
          have helement := isElement_of_static hnextMarkup (by simpa using hnext)
          simp [Sibling.ofNodes, helement]
      rw [Sibling.ofNode, groups, hstop.1, hstop.2, ih hrest hms]
      · rfl
      · intro tag span build content h
        cases h
    | interpolation => simp [Markup.ofNode?] at hm

/-- Static siblings are built one by one. -/
theorem buildSiblings_static (hspaced : Node.isSpaced preformatted behindSibling nodes)
    (h : Markup.ofNodes? nodes = some forest) (hbuilds : Forall₂ Builds nodes forest)
    (locals : List Text) :
    ∃ vs, buildSiblings locals (Sibling.ofNodes nodes) = .ok vs ∧ Forall₂ Draws vs forest := by
  rw [buildSiblings, groups_static hspaced h]
  clear hspaced h
  induction hbuilds with
  | nil => exact ⟨[], rfl, .nil⟩
  | cons hnode _ ih =>
    obtain ⟨v, hv, hdraws⟩ := hnode locals
    obtain ⟨vs, hvs, hall⟩ := ih
    refine ⟨v :: vs, ?_, .cons hdraws hall⟩
    rw [Sibling.ofNodes, List.map_cons, List.mapM_cons, hv, hvs]
    rfl

/-- Static siblings without an element are at most one text. -/
theorem eq_text_of_static (hspaced : Node.isSpaced preformatted behindSibling nodes)
    (h : Markup.ofNodes? nodes = some forest)
    (hall : (Sibling.ofNodes nodes).all fun s => !s.isElement) :
    nodes = [] ∨ ∃ content span, nodes = [.text content span] := by
  have hnot : ∀ {node m}, Markup.ofNode? node = some m →
      (!(Sibling.ofNode node).isElement) = true → node.isText = true := by
    intro node m hm helement
    by_contra htext
    simp [isElement_of_static hm (by simpa using htext)] at helement
  rcases nodes with _ | ⟨node, nodes⟩
  · exact .inl rfl
  · obtain ⟨m, ms, hm, hms, -⟩ := exists_of_ofNodes? h
    rw [Sibling.ofNodes, List.all_cons, Bool.and_eq_true] at hall
    have htext := hnot hm hall.1
    cases node with
    | element => simp [Node.isText] at htext
    | interpolation => simp [Node.isText] at htext
    | text content span =>
      refine .inr ⟨content, span, ?_⟩
      rcases nodes with _ | ⟨next, nodes⟩
      · rfl
      · obtain ⟨_, _, hnext, -, -⟩ := exists_of_ofNodes? hms
        rw [Sibling.ofNodes, List.all_cons, Bool.and_eq_true] at hall
        have hnextText := hnot hnext hall.2.1
        simp [Node.isSpaced, hnextText] at hspaced

/-- A static element is built from its attributes and what it holds. -/
theorem builds_element {tag : Tag} {children : List Node} {ms : List Markup}
    {attributes : List (Text × Text)} (span : Span) (hkind : tag.kind = .native)
    (hitems : Markup.ofItems? tag.items = some attributes)
    (hspaced : Node.isSpaced preformatted behindSibling children)
    (hms : Markup.ofNodes? children = some ms) (hchildren : Forall₂ Builds children ms) :
    Builds (.element tag children span) (.element tag.name attributes ms) := by
  intro locals
  obtain ⟨as, hattributes, rfl, hnodup⟩ := exists_attributes hitems
  obtain ⟨name, kind, items⟩ := tag
  obtain rfl : kind = .native := hkind
  obtain rfl : items = as.map .attribute := hattributes
  -- attributes are neither loops nor dynamic, so the element is built as it stands
  have hbuild : (Sibling.ofNode
      (.element ⟨name, .native, as.map .attribute⟩ children span)).group.build locals =
      buildNative locals ⟨name, .native, as.map .attribute⟩ (Sibling.ofNodes children) := by
    change buildElement _ _ _ _ = _
    rw [buildElement, refuseDynamic_attributes, directive?_attributes]
    rfl
  rw [hbuild, buildNative, assignments_attributes, buildContent_attributes]
  -- children without an element are at most one text, which is the content itself
  by_cases hall : (Sibling.ofNodes children).all fun s => !s.isElement
  · rcases eq_text_of_static hspaced hms hall with rfl | ⟨content, place, rfl⟩
    · obtain rfl : [] = ms := Option.some.inj hms
      exact ⟨_, rfl, draws_leaf hnodup⟩
    · obtain rfl : [.text content] = ms := Option.some.inj hms
      exact ⟨_, rfl, draws_labelled hnodup content⟩
  · obtain ⟨vs, hvs, hdraws⟩ := buildSiblings_static hspaced hms hchildren locals
    have hne : ¬(Sibling.ofNodes children).isEmpty := by
      intro hempty
      rw [List.isEmpty_iff] at hempty
      simp [hempty] at hall
    rw [if_neg hne, if_neg hall, hvs]
    exact ⟨_, rfl, draws_parent hnodup hdraws⟩

end Siblings

mutual

/-- A static node is built as what draws its markup. -/
theorem builds_node : ∀ {node : Node} {m : Markup}, node.isNormal → Markup.ofNode? node = some m →
    Builds node m
  | .element tag children span, m, hnormal, h => by
    obtain ⟨attributes, ms, hkind, hitems, hms, rfl⟩ := exists_of_ofNode? h
    have hchildren : Node.isSpaced (tag.name = "pre".toList) false children ∧
        Node.allNormal children := by
      rw [Node.isNormal, Bool.and_eq_true] at hnormal
      obtain ⟨-, hnormal⟩ := hnormal
      split at hnormal
      · rw [List.isEmpty_iff] at hnormal
        subst hnormal
        exact ⟨rfl, rfl⟩
      · rwa [Bool.and_eq_true] at hnormal
    exact builds_element span hkind hitems hchildren.1 hms (builds_nodes hchildren.2 hms)
  | .text content span, m, _, h => by
    obtain rfl : .text content = m := Option.some.inj h
    exact builds_text content span
  | .interpolation _ _, m, _, h => by
    simp [Markup.ofNode?] at h

/-- Static nodes are built as what draws their markup. -/
theorem builds_nodes : ∀ {nodes : List Node} {forest : List Markup}, Node.allNormal nodes →
    Markup.ofNodes? nodes = some forest → Forall₂ Builds nodes forest
  | [], forest, _, h => by
    obtain rfl : [] = forest := Option.some.inj h
    exact .nil
  | node :: nodes, forest, hnormal, h => by
    obtain ⟨m, ms, hm, hms, rfl⟩ := exists_of_ofNodes? h
    rw [Node.allNormal, Bool.and_eq_true] at hnormal
    exact .cons (builds_node hnormal.1 hm) (builds_nodes hnormal.2 hms)

end

end Building

/-- A normal static template is compiled to code that draws its markup. -/
theorem exists_generate (mode : Mode) {nodes : List Node} {forest : List Markup}
    (hnormal : Node.areNormal nodes) (hforest : Markup.ofNodes? nodes = some forest) :
    ∃ result, generate mode nodes = .ok result ∧ Markup.ofCode? result.code = some forest := by
  rw [Node.areNormal, Bool.and_eq_true] at hnormal
  obtain ⟨roots, hroots, hdraws⟩ :=
    buildSiblings_static hnormal.1 hforest (builds_nodes hnormal.2 hforest) []
  refine ⟨RenderCode.ofRoots mode roots, ?_, ofCode?_ofRoots hdraws⟩
  rw [generate, buildTemplate, hroots]
  rfl

/-- A normal static template is compiled to code that draws its markup, so templates of different
markup are never compiled to the same code. -/
theorem generate_markup (mode : Mode) {nodes : List Node} {forest : List Markup}
    (hnormal : Node.areNormal nodes) (hforest : Markup.ofNodes? nodes = some forest) :
    ∃ result, generate mode nodes = .ok result ∧ Markup.ofCode? result.code = some forest ∧
      ∀ mode' others forest' result', Node.areNormal others →
        Markup.ofNodes? others = some forest' → generate mode' others = .ok result' →
        result'.code = result.code → forest' = forest := by
  obtain ⟨result, hresult, hcode⟩ := exists_generate mode hnormal hforest
  refine ⟨result, hresult, hcode, ?_⟩
  intro mode' others forest' result' hnormal' hforest' hresult' hsame
  obtain ⟨result'', hresult'', hcode'⟩ := exists_generate mode' hnormal' hforest'
  obtain rfl : result'' = result' := Except.ok.inj (hresult''.symm.trans hresult')
  rw [hsame, hcode] at hcode'
  exact (Option.some.inj hcode').symm

/-- A list with all that is written in different ways: attributes with and without a value, on one
line and on several, and elements that hold nothing, a text, or nodes. -/
def staticTemplate : List Node :=
  let element (name : String) (attributes : List (String × Option String))
      (children : List Node) : Node :=
    .element ⟨name.toList, .native, attributes.map fun (name, value) =>
      .attribute ⟨name.toList, value.map String.toList, ⟨0, 0⟩⟩⟩ children ⟨0, 0⟩
  let text (content : String) : Node := .text content.toList ⟨0, 0⟩
  [element "ul" [("class", "wide"), ("hidden", none)]
    [element "li" [] [text "\"one\""], text " ", element "li" [("data-id", "a\\b")]
      [text "two ", element "br" [] []]],
    element "p" [("title", "a text that is too long to stand on one line with all the others"),
      ("lang", "en")] [], text "end"]

/-- What the template says. -/
def staticMarkup : List Markup :=
  let attributes (list : List (String × String)) : List (Text × Text) :=
    list.map fun (name, value) => (name.toList, value.toList)
  [.element "ul".toList (attributes [("class", "wide"), ("hidden", "")])
    [.element "li".toList [] [.text "\"one\"".toList], .text [' '],
      .element "li".toList (attributes [("data-id", "a\\b")])
        [.text "two ".toList, .element "br".toList [] []]],
    .element "p".toList
      (attributes [("title", "a text that is too long to stand on one line with all the others"),
        ("lang", "en")]) [], .text "end".toList]

theorem generate_markup_staticTemplate :
    Node.areNormal staticTemplate ∧ Markup.ofNodes? staticTemplate = some staticMarkup ∧
      ∃ result, generate .module staticTemplate = .ok result ∧
        Markup.ofCode? result.code = some staticMarkup ∧
        ∀ mode' others forest' result', Node.areNormal others →
          Markup.ofNodes? others = some forest' → generate mode' others = .ok result' →
          result'.code = result.code → forest' = staticMarkup := by
  have hnormal : Node.areNormal staticTemplate := by decide +kernel
  have hmarkup : Markup.ofNodes? staticTemplate = some staticMarkup := by rfl
  exact ⟨hnormal, hmarkup, generate_markup .module hnormal hmarkup⟩

end ModuleServer.Render
