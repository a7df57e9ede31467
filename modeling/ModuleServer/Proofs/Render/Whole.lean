import ModuleServer.Proofs.Render.Seat
import ModuleServer.Proofs.Template.Located

/-!
# How building a template ends

Building ends with virtual nodes, with an error, or because an expression was to be cut inside a
character (`buildTemplate_ends`): an error stands where an element or a directive of the template
stands, and only a text of the template that may be put into the context is ever cut. So if the
parameters of the functions in all these texts can be told, building ends with nodes or with an
error that has a text (`buildTemplate_whole`).
-/

namespace ModuleServer.Render

open Text Template

/-! ## Steps -/

/-- A computation that does not end because a text was to be cut inside a character. -/
def IsWhole {α : Type} (x : Built α) : Prop :=
  x ≠ .error .splitCharacter

/-- A computation that ends with a value, or in one of the ways that `q` allows. -/
def Ends {α : Type} (q : Stop Template.Error → Prop) (x : Built α) : Prop :=
  ∀ stop, x = .error stop → q stop

namespace Ends

variable {α β : Type} {q : Stop Template.Error → Prop} {x : Built α}

theorem ok (a : α) : Ends q (.ok a : Built α) :=
  nofun

theorem refused {fault : Fault} {span : Span} (h : ∀ fault, q (.failed ⟨fault, span⟩)) :
    Ends q (refuse fault span : Built α) := by
  intro stop hstop
  cases hstop
  exact h fault

theorem bind {f : α → Built β} (hx : Ends q x) (hf : ∀ a, Ends q (f a)) : Ends q (x >>= f) := by
  cases x with
  | ok a => exact hf a
  | error stop =>
    intro stop' hstop
    cases hstop
    exact hx stop rfl

theorem map {f : α → β} (hx : Ends q x) : Ends q (x.map f) := by
  cases x with
  | ok a => exact nofun
  | error stop =>
    intro stop' hstop
    cases hstop
    exact hx stop rfl

theorem mapM {f : β → Built α} {items : List β} (h : ∀ b ∈ items, Ends q (f b)) :
    Ends q (items.mapM f) := by
  induction items with
  | nil => exact ok []
  | cons b items ih =>
    obtain ⟨hb, hitems⟩ := List.forall_mem_cons.1 h
    rw [List.mapM_cons]
    exact bind hb fun _ => bind (ih hitems) fun _ => ok _

end Ends

/-! ## Texts and places -/

/-- Whether the parameters of the functions in a text can be told. -/
def isReadable (t : Text) : Bool :=
  (Expression.parameterNames? t).isSome

/-- The texts of a directive that may be put into the context: its argument if it has no expression,
its expression with or without the white space around it, and the source of a loop. -/
def texts (d : Directive) : List Text :=
  match d.exp with
  | none => [camelize (d.arg.getD [])]
  | some exp => [exp, trim exp] ++ ((readLoop? exp).map (·.2)).toList

/-- The texts of items that may be put into the context. -/
def textsOfItems (items : List Item) : List Text :=
  items.flatMap fun
    | .attribute _ => []
    | .directive d => texts d

mutual

/-- The texts of a node that may be put into the context. -/
def textsOfNode : Node → List Text
  | .element tag children _ => textsOfItems tag.items ++ textsOfNodes children
  | .text .. => []
  | .interpolation exp _ => [exp]

/-- The texts of nodes that may be put into the context. -/
def textsOfNodes : List Node → List Text
  | [] => []
  | node :: nodes => textsOfNode node ++ textsOfNodes nodes

end

/-- Whether `q` allows to end where a text cannot be read, and with a fault at a place. -/
structure Allows (q : Stop Template.Error → Prop) (texts : List Text) (spans : List Span) :
    Prop where
  /-- A text that cannot be read. -/
  splits : ∀ t ∈ texts, isReadable t = false → q .splitCharacter
  /-- A fault at one of the places. -/
  fails : ∀ span ∈ spans, ∀ fault, q (.failed ⟨fault, span⟩)

section Texts

variable {q : Stop Template.Error → Prop} {texts texts' : List Text} {spans spans' : List Span}

theorem Allows.mono (h : Allows q texts spans) (htexts : texts' ⊆ texts)
    (hspans : spans' ⊆ spans) : Allows q texts' spans' :=
  ⟨fun t ht => h.splits t (htexts ht), fun span hspan => h.fails span (hspans hspan)⟩

theorem Allows.refused {α : Type} {fault : Fault} {span : Span} (h : Allows q texts spans)
    (hspan : span ∈ spans) : Ends q (refuse fault span : Built α) :=
  .refused (h.fails span hspan)

/-- A text that can be read is put into the context. -/
theorem ends_inContext {t : Text} (h : isReadable t = false → q .splitCharacter)
    (locals : List Text) : Ends q (inContext locals t) := by
  rw [isReadable] at h
  rw [inContext, Expression.prefixNames?]
  cases hnames : Expression.parameterNames? t with
  | some names => exact .ok _
  | none =>
    intro stop hstop
    cases hstop
    refine h ?_
    rw [hnames]
    rfl

theorem Allows.inContext {t : Text} (h : Allows q texts spans) (ht : t ∈ texts)
    (locals : List Text) : Ends q (inContext locals t) :=
  ends_inContext (h.splits t ht) locals

end Texts

section Building

variable {q : Stop Template.Error → Prop}

/-! ## Directives -/

section Directives

variable {d : Directive} {locals : List Text}

/-- The expression that a directive needs is put into the context. -/
theorem ends_required_bind {α : Type} (h : Allows q (texts d) [d.span]) {f : Text → Built α}
    (hf : ∀ exp, d.exp = some exp → exp ∈ texts d → Ends q (f exp)) :
    Ends q (required d >>= f) := by
  rw [required]
  cases hexp : d.exp with
  | none => exact h.refused (List.mem_singleton.2 rfl)
  | some exp =>
    refine hf exp hexp ?_
    simp [texts, hexp]

theorem ends_react (h : Allows q (texts d) [d.span]) : Ends q (react locals d.exp) := by
  rw [react]
  cases hexp : d.exp with
  | none => exact .ok _
  | some exp =>
    have htrim : trim exp ∈ texts d := by simp [texts, hexp]
    rw [Option.map_some]
    generalize trim exp = t at htrim
    cases t with
    | nil => exact .ok _
    | cons c t =>
      dsimp only
      split
      · exact (h.inContext htrim _).map
      · exact (h.inContext htrim _).map

theorem ends_bind {arg : Text} (harg : d.arg = some arg) (h : Allows q (texts d) [d.span]) :
    Ends q (Render.bind locals arg d) := by
  rw [Render.bind]
  refine (h.inContext ?_ _).bind fun _ => .ok _
  cases hexp : d.exp <;> simp [texts, hexp, harg]

theorem ends_assignDirective (skipped : List Text) (h : Allows q (texts d) [d.span]) :
    Ends q (assignDirective locals skipped d) := by
  have hspan : d.span ∈ [d.span] := List.mem_singleton.2 rfl
  have hexp : ∀ {f : Text → Option Assignment},
      Ends q (do return f (← inContext locals (← required d))) := by
    intro f
    refine ends_required_bind h fun exp _ hexp => ?_
    exact (h.inContext hexp _).bind fun _ => .ok _
  rw [assignDirective]
  split
  · cases harg : d.arg with
    | none => exact hexp
    | some arg =>
      dsimp only
      split
      · exact .ok none
      · exact (ends_bind harg h).bind fun _ => .ok _
  split
  · cases d.arg with
    | none => exact h.refused hspan
    | some event => exact ((ends_react h).bind fun _ => .ok _).bind fun _ => .ok _
  split
  · exact hexp
  split
  · exact .ok none
  · exact h.refused hspan

end Directives

/-! ## Tags -/

section Tags

variable {tag : Tag} {item : Item} {items : List Item} {locals : List Text}

/-- What is allowed for items is allowed for the first and for the others. -/
theorem Allows.of_cons
    (h : Allows q (textsOfItems (item :: items)) ((item :: items).map Item.span)) :
    Allows q (textsOfItems [item]) [item.span] ∧
      Allows q (textsOfItems items) (items.map Item.span) := by
  have htexts : textsOfItems (item :: items) = textsOfItems [item] ++ textsOfItems items := by
    rw [textsOfItems, textsOfItems, textsOfItems, ← List.flatMap_append]
    rfl
  rw [htexts, List.map_cons] at h
  constructor
  · refine h.mono (List.subset_append_left _ _) fun span hspan => ?_
    exact List.mem_cons.2 (.inl (List.mem_singleton.1 hspan))
  · exact h.mono (List.subset_append_right _ _) (List.subset_cons_self _ _)

/-- What is allowed for a directive by itself. -/
theorem Allows.of_directive {d : Directive}
    (h : Allows q (textsOfItems [.directive d]) [d.span]) : Allows q (texts d) [d.span] := by
  refine h.mono (fun t ht => ?_) (List.Subset.refl _)
  exact List.mem_flatMap.2 ⟨_, List.mem_singleton.2 rfl, ht⟩

theorem ends_assignments (locals skipped : List Text)
    (h : Allows q (textsOfItems items) (items.map Item.span)) :
    Ends q (assignments locals skipped items) := by
  induction items with
  | nil => exact .ok []
  | cons item items ih =>
    obtain ⟨hitem, hitems⟩ := h.of_cons
    refine Ends.bind ?_ fun _ => (ih hitems).bind fun _ => .ok _
    rcases item with a | d
    · rw [assign]
      split
      · exact .ok none
      · exact .ok _
    · exact ends_assignDirective skipped hitem.of_directive

theorem ends_keyValue? (locals : List Text) (key valueless : Text)
    (h : Allows q (textsOfItems items) (items.map Item.span)) :
    Ends q (keyValue? locals key valueless items) := by
  induction items with
  | nil => exact .ok none
  | cons item items ih =>
    obtain ⟨hitem, hitems⟩ := h.of_cons
    rcases item with a | d
    · rw [keyValue?]
      split
      · exact .ok _
      · exact ih hitems
    · rw [keyValue?]
      split
      · cases hexp : d.exp with
        | none => exact ih hitems
        | some exp =>
          refine (hitem.of_directive.inContext ?_ _).map
          simp [texts, hexp]
      · exact ih hitems

theorem ends_refuseDynamic (h : Allows q (textsOfItems items) (items.map Item.span)) :
    Ends q (refuseDynamic items) := by
  induction items with
  | nil => exact .ok ()
  | cons item items ih =>
    obtain ⟨hitem, hitems⟩ := h.of_cons
    rcases item with a | d
    · exact ih hitems
    · rw [refuseDynamic]
      split
      · exact hitem.refused (List.mem_singleton.2 rfl)
      · exact ih hitems

/-- What is allowed for a tag is allowed for the directives that it has. -/
theorem Allows.of_directive? {name : Text} {d : Directive}
    (h : Allows q (textsOfItems tag.items) (tag.items.map Item.span))
    (hd : tag.directive? name = some d) : Allows q (texts d) [d.span] := by
  obtain ⟨hmem, -⟩ := mem_of_directive? hd
  refine h.mono (fun t ht => ?_) fun span hspan => ?_
  · exact List.mem_flatMap.2 ⟨_, hmem, ht⟩
  · obtain rfl := List.mem_singleton.1 hspan
    exact List.mem_map.2 ⟨_, hmem, rfl⟩

end Tags

/-! ## Siblings -/

/-- A sibling whose building ends as `q` allows, and that is built from such. -/
def Sibling.Ends (q : Stop Template.Error → Prop) : Sibling → Prop
  | .element tag span build content =>
    Allows q (textsOfItems tag.items) (span :: tag.items.map Item.span) ∧
      (∀ locals, Render.Ends q (build locals)) ∧ ∀ locals, Render.Ends q (content locals)
  | .text _ => True
  | .interpolation exp => isReadable exp = false → q .splitCharacter

/-- What is allowed for an element is allowed for its tag. -/
theorem Allows.tag {tag : Tag} {span : Span}
    (h : Allows q (textsOfItems tag.items) (span :: tag.items.map Item.span)) :
    Allows q (textsOfItems tag.items) (tag.items.map Item.span) :=
  h.mono (List.Subset.refl _) (List.subset_cons_self _ _)

section Siblings

variable {siblings : List Sibling}

theorem ends_textRun (locals : List Text) (h : ∀ s ∈ siblings, s.Ends q) :
    Ends q (textRun locals siblings) := by
  refine .mapM fun x hx => ?_
  obtain ⟨s, hs, hpart⟩ := List.mem_filterMap.1 hx
  have hends := h s hs
  cases s with
  | element => cases hpart
  | text content =>
    cases hpart
    exact .ok _
  | interpolation exp =>
    cases hpart
    exact (ends_inContext hends _).map

theorem ends_choose (locals : List Text) {branches : List Branch} (otherwise : VNode)
    (h : ∀ b ∈ branches, ∃ content, (Sibling.element b.tag b.span b.build content).Ends q) :
    Ends q (choose locals otherwise branches) := by
  induction branches generalizing otherwise with
  | nil => exact .ok otherwise
  | cons b outer ih =>
    obtain ⟨⟨content, hitems, hbuild, -⟩, houter⟩ := List.forall_mem_cons.1 h
    rw [choose, condition]
    cases hd : (b.tag.directive? "if".toList).or (b.tag.directive? "else-if".toList) with
    | none => exact hitems.refused List.mem_cons_self
    | some d =>
      have hdirective : Allows q (texts d) [d.span] := by
        rcases Option.or_eq_some_iff.1 hd with hif | ⟨-, helseIf⟩
        · exact hitems.tag.of_directive? hif
        · exact hitems.tag.of_directive? helseIf
      refine ends_required_bind hdirective fun exp _ hexp => ?_
      refine (hbuild locals).bind fun v => ?_
      exact (hdirective.inContext hexp _).bind fun test => ih _ houter

theorem ends_buildChain (locals : List Text) {first : Branch} {others : List Branch}
    (h : ∀ b ∈ first :: others, ∃ content,
      (Sibling.element b.tag b.span b.build content).Ends q) :
    Ends q (buildChain locals first others) := by
  have hlast := List.getLast_mem (List.cons_ne_nil first others)
  rw [buildChain]
  split
  · obtain ⟨content, -, hbuild, -⟩ := h _ hlast
    refine (hbuild locals).bind fun otherwise => ?_
    refine (ends_choose locals otherwise fun b hb => ?_).bind fun _ => .ok _
    exact h b (List.dropLast_subset _ (List.mem_reverse.1 hb))
  · refine (ends_choose locals .hidden fun b hb => ?_).bind fun _ => .ok _
    exact h b (List.mem_reverse.1 hb)

theorem ends_buildSiblings (locals : List Text) (h : ∀ s ∈ siblings, s.Ends q) :
    Ends q (buildSiblings locals siblings) := by
  refine .mapM fun g hg => ?_
  have hall := groups_forall h g hg
  cases g with
  | chain first others => exact ends_buildChain locals hall
  | stray span =>
    obtain ⟨tag, build, content, hitems, -⟩ := hall
    exact hitems.refused List.mem_cons_self
  | single build =>
    obtain ⟨tag, span, content, -, hbuild, -⟩ := hall
    exact hbuild locals
  | run run => exact (ends_textRun locals hall).map

end Siblings

/-! ## Elements -/

section Elements

variable {tag : Tag} {span : Span} {children : List Sibling}

theorem ends_buildContent (locals : List Text)
    (htag : Allows q (textsOfItems tag.items) (tag.items.map Item.span))
    (h : ∀ s ∈ children, s.Ends q) : Ends q (buildContent locals tag children) := by
  rw [buildContent]
  cases hd : tag.directive? "text".toList with
  | some d =>
    refine ends_required_bind (htag.of_directive? hd) fun exp _ hexp => ?_
    exact ((htag.of_directive? hd).inContext hexp _).bind fun _ => .ok _
  | none =>
    dsimp only
    split
    · exact .ok _
    split
    · exact (ends_textRun locals h).map
    · exact (ends_buildSiblings locals h).map

theorem ends_buildSlots (locals : List Text) (tag : Tag) (h : ∀ s ∈ children, s.Ends q) :
    Ends q (buildSlots locals tag children) := by
  have himplicit : ∀ params children, (∀ s ∈ children, Sibling.Ends q s) →
      ∀ x ∈ (implicitSlot? locals params children).toList, Ends q x := by
    intro params children hchildren x hx
    rw [implicitSlot?] at hx
    split at hx
    · cases hx
    · obtain rfl := List.mem_singleton.1 hx
      exact (ends_buildSiblings _ hchildren).bind fun _ => .ok _
  have hnamed : ∀ x ∈ children.filterMap (namedSlot? locals), Ends q x := by
    intro x hx
    obtain ⟨s, hs, hnamed⟩ := List.mem_filterMap.1 hx
    have hends := h s hs
    rw [namedSlot?.eq_def] at hnamed
    split at hnamed
    · obtain rfl := Option.some.inj hnamed
      obtain ⟨hitems, -, hcontent⟩ := hends
      exact (ends_refuseDynamic hitems.tag).bind fun _ => (hcontent _).bind fun _ => .ok _
    · cases hnamed
  rw [buildSlots]
  cases tag.directive? "slot".toList with
  | some d => exact .mapM (himplicit _ _ h)
  | none =>
    refine .mapM fun x hx => ?_
    rcases List.mem_append.1 hx with hx | hx
    · exact hnamed x hx
    · exact himplicit _ _ (fun s hs => h s (List.mem_of_mem_filter hs)) x hx

theorem ends_buildPlain (locals : List Text)
    (htag : Allows q (textsOfItems tag.items) (span :: tag.items.map Item.span))
    (h : ∀ s ∈ children, s.Ends q) : Ends q (buildPlain tag span children locals) := by
  rw [buildPlain]
  cases tag.kind with
  | template => exact (ends_buildSiblings locals h).map
  | outlet =>
    refine (ends_keyValue? _ _ _ htag.tag).bind fun name => ?_
    refine (ends_assignments _ _ htag.tag).bind fun props => ?_
    exact (ends_buildSiblings locals h).bind fun _ => .ok _
  | native =>
    refine (ends_assignments _ _ htag.tag).bind fun props => ?_
    refine (ends_buildContent locals htag.tag h).bind fun content => ?_
    cases content <;> exact .ok _
  | component =>
    have htarget : Ends q (buildTarget locals tag span) := by
      rw [buildTarget]
      split
      · refine (ends_keyValue? _ _ _ htag.tag).bind fun value => ?_
        cases value with
        | none => exact htag.refused List.mem_cons_self
        | some value => exact .ok _
      · exact .ok _
    refine htarget.bind fun target => (ends_assignments _ _ htag.tag).bind fun props => ?_
    exact (ends_buildSlots locals tag h).bind fun _ => .ok _

theorem ends_buildElement (locals : List Text)
    (htag : Allows q (textsOfItems tag.items) (span :: tag.items.map Item.span))
    (h : ∀ s ∈ children, s.Ends q) : Ends q (buildElement tag span children locals) := by
  rw [buildElement]
  refine (ends_refuseDynamic htag.tag).bind fun _ => ?_
  cases hd : tag.directive? "for".toList with
  | none => exact ends_buildPlain locals htag h
  | some d =>
    have hdirective := htag.tag.of_directive? hd
    refine ends_required_bind hdirective fun exp hexp _ => ?_
    cases hread : readLoop? exp with
    | none => exact hdirective.refused (List.mem_singleton.2 rfl)
    | some loop =>
      refine (ends_buildPlain _ htag h).bind fun item => ?_
      refine (hdirective.inContext ?_ locals).bind fun _ => .ok _
      simp [texts, hexp, hread]

end Elements

/-! ## Templates -/

mutual

theorem ends_ofNode : ∀ {node : Node}, Allows q (textsOfNode node) node.places →
    (Sibling.ofNode node).Ends q
  | .element tag children span, h => by
    rw [textsOfNode, Node.places, ← List.cons_append] at h
    have htag := h.mono (List.subset_append_left _ _) (List.subset_append_left _ _)
    have hchildren := ends_ofNodes
      (h.mono (List.subset_append_right _ _) (List.subset_append_right _ _))
    exact ⟨htag, fun locals => ends_buildElement locals htag hchildren,
      fun locals => ends_buildSiblings locals hchildren⟩
  | .text .., _ => trivial
  | .interpolation exp span, h => h.splits exp (List.mem_singleton.2 rfl)

theorem ends_ofNodes : ∀ {nodes : List Node}, Allows q (textsOfNodes nodes) (Node.placesAll nodes) →
    ∀ s ∈ Sibling.ofNodes nodes, s.Ends q
  | [], _ => nofun
  | node :: nodes, h => by
    rw [textsOfNodes, Node.placesAll] at h
    have hnode := h.mono (List.subset_append_left _ _) (List.subset_append_left _ _)
    have hnodes := h.mono (List.subset_append_right _ _) (List.subset_append_right _ _)
    exact List.forall_mem_cons.2 ⟨ends_ofNode hnode, ends_ofNodes hnodes⟩

end

/-- Building a template ends with nodes, with an error at one of its places, or at a text that
cannot be read. -/
theorem buildTemplate_ends {nodes : List Node}
    (h : Allows q (textsOfNodes nodes) (Node.placesAll nodes)) : Ends q (buildTemplate nodes) :=
  ends_buildSiblings [] (ends_ofNodes h)

end Building

/-- If all its texts can be read, building a template ends with nodes or with an error that has a
text. -/
theorem buildTemplate_whole {nodes : List Node} (h : ∀ t ∈ textsOfNodes nodes, isReadable t) :
    IsWhole (buildTemplate nodes) := by
  have hends : Ends (· ≠ .splitCharacter) (buildTemplate nodes) := by
    refine buildTemplate_ends ⟨fun t ht hread => ?_, fun span _ fault => nofun⟩
    exact absurd ((h t ht).symm.trans hread) Bool.noConfusion
  exact fun hstop => hends _ hstop rfl

/-- An error in building a template stands where one of its elements or directives does. -/
theorem mem_places_of_buildTemplate {nodes : List Node} {e : Template.Error}
    (h : buildTemplate nodes = .error (.failed e)) : e.span ∈ Node.placesAll nodes := by
  have hends : Ends (fun stop => ∀ e, stop = .failed e → e.span ∈ Node.placesAll nodes)
      (buildTemplate nodes) := by
    refine buildTemplate_ends ⟨fun t _ _ => nofun, fun span hspan fault e he => ?_⟩
    cases he
    exact hspan
  exact hends _ h e rfl

end ModuleServer.Render
