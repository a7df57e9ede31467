import ModuleServer.Proofs.Render.Exchange
import ModuleServer.Proofs.Template.Preformatted

/-!
# Bindings without an expression

A binding may leave out its expression, which is then its own name (`spelledTag` writes it out).
Props are read so. What the element of a tag is made from beside its props, the name of a slot's
place and what a dynamic component is, is looked for among the items that write a value, so there a
binding without an expression is passed over (`heededTag`).

* `SameReading` is what two tags need to have in common for their elements to be built the same, and
  `generate_mapTags` goes from there to templates.
* `generate_shorthand`: a template means the same with all bindings spelled out but those that are
  passed over, and with all of them if none that is passed over comes first for its key.
-/

namespace ModuleServer.Render

open Text Template

/-! ## Spelling out -/

/-- Whether an item is a binding that leaves out its expression. -/
def isShorthand : Item → Bool
  | .attribute _ => false
  | .directive d => d.name = "bind".toList && d.arg.isSome && d.exp.isNone

/-- A directive with the name that it binds as its expression. -/
def selfBound (d : Directive) : Directive :=
  { d with exp := d.arg.map camelize }

/-- An item, with its expression written if it is a binding that leaves it out. -/
def spelled (item : Item) : Item :=
  match item with
  | .attribute a => .attribute a
  | .directive d => if isShorthand item then .directive (selfBound d) else .directive d

/-- A tag with the expressions of all bindings written. -/
def spelledTag (tag : Tag) : Tag :=
  { tag with items := tag.items.map spelled }

/-! ## What is asked for beside the props -/

/-- The key that says what the element of a tag is made from, if its items say that. -/
def askedKey? (tag : Tag) : Option Text :=
  match tag.kind with
  | .outlet => some "name".toList
  | .component => if tag.name = "component".toList then some "is".toList else none
  | _ => none

/-- Whether an item gives a value to a key. -/
def gives (key : Text) : Item → Bool
  | .attribute a => a.name = key
  | .directive d => d.name = "bind".toList && d.arg = some key

/-- Whether an item is passed over. -/
def isPassedOver (tag : Tag) (item : Item) : Bool :=
  isShorthand item && (askedKey? tag).any fun key => gives key item

/-- A tag without the items that are passed over, with the expressions of all other bindings
written. -/
def heededTag (tag : Tag) : Tag :=
  spelledTag { tag with items := tag.items.filter fun item => !isPassedOver tag item }

/-- Whether the first item that gives the value that is asked for is not passed over. -/
def isSettled (tag : Tag) : Bool :=
  (askedKey? tag).all fun key => !(tag.items.find? (gives key)).any isShorthand

/-! ## Tags that are read the same -/

/-- Two tags that no element can tell apart. -/
structure SameReading (tag tag' : Tag) : Prop where
  name : tag'.name = tag.name
  kind : tag'.kind = tag.kind
  dynamic : refuseDynamic tag'.items = refuseDynamic tag.items
  directive : ∀ name ≠ "bind".toList, tag'.directive? name = tag.directive? name
  props : ∀ locals skipped, (∀ key, askedKey? tag = some key → key ∈ skipped) →
    assignments locals skipped tag'.items = assignments locals skipped tag.items
  asked : ∀ locals valueless key, askedKey? tag = some key →
    keyValue? locals key valueless tag'.items = keyValue? locals key valueless tag.items

namespace SameReading

variable {tag tag' : Tag} (h : SameReading tag tag')

include h

theorem has {name : Text} (hname : name ≠ "bind".toList) : tag'.has name = tag.has name := by
  rw [Tag.has, h.directive name hname, Tag.has]

theorem sameView : SameView tag tag' where
  kind := h.kind
  dynamic := h.dynamic
  directive := by
    intro name hname
    refine h.directive name ?_
    rintro rfl
    exact absurd hname (by decide)

theorem buildNative (locals : List Text) (children : List Sibling) (hkind : tag.kind = .native) :
    buildNative locals tag' children = buildNative locals tag children := by
  have hprops : assignments locals [] tag'.items = assignments locals [] tag.items := by
    refine h.props locals [] fun key hkey => ?_
    rw [askedKey?, hkind] at hkey
    cases hkey
  have htext := h.directive "text".toList (by decide)
  have hhtml := h.has (show "html".toList ≠ "bind".toList by decide)
  rw [Render.buildNative, Render.buildNative, buildContent, buildContent, h.name, hprops, htext,
    hhtml]

theorem buildOutlet (locals : List Text) (children : List Sibling) (hkind : tag.kind = .outlet) :
    buildOutlet locals tag' children = buildOutlet locals tag children := by
  have hkey : askedKey? tag = some "name".toList := by
    rw [askedKey?, hkind]
  have hprops : assignments locals ["name".toList] tag'.items =
      assignments locals ["name".toList] tag.items := by
    refine h.props locals _ fun key hkey' => ?_
    rw [Option.some.inj (hkey'.symm.trans hkey)]
    exact List.mem_singleton_self _
  rw [Render.buildOutlet, Render.buildOutlet, h.asked _ _ _ hkey, hprops]

theorem buildComponent (locals : List Text) (span : Span) (children : List Sibling)
    (hkind : tag.kind = .component) :
    buildComponent locals tag' span children = buildComponent locals tag span children := by
  have hkey : askedKey? tag =
      if tag.name = "component".toList then some "is".toList else none := by
    rw [askedKey?, hkind]
  have htarget : buildTarget locals tag' span = buildTarget locals tag span := by
    rw [buildTarget, buildTarget, h.name]
    split
    · rename_i hname
      rw [if_pos hname] at hkey
      rw [h.asked _ _ _ hkey]
    · rfl
  have hprops : assignments locals ["is".toList] tag'.items =
      assignments locals ["is".toList] tag.items := by
    refine h.props locals _ fun key hkey' => ?_
    rw [hkey] at hkey'
    split at hkey'
    · rw [← Option.some.inj hkey']
      exact List.mem_singleton_self _
    · cases hkey'
  have hslots : buildSlots locals tag' children = buildSlots locals tag children := by
    rw [buildSlots, buildSlots, h.directive _ (by decide)]
  rw [Render.buildComponent, Render.buildComponent, htarget, hprops, hslots]

/-- The elements of tags that are read the same are built the same. -/
theorem buildElement (span : Span) (children : List Sibling) :
    buildElement tag' span children = buildElement tag span children := by
  have hplain : buildPlain tag' span children = buildPlain tag span children := by
    funext locals
    rw [buildPlain, buildPlain, h.kind]
    cases hkind : tag.kind with
    | template => rfl
    | outlet => exact h.buildOutlet locals children hkind
    | component => exact h.buildComponent locals span children hkind
    | native => exact h.buildNative locals children hkind
  have hloop := h.directive "for".toList (by decide)
  funext locals
  rw [Render.buildElement, Render.buildElement, h.dynamic, hloop, hplain]

end SameReading

/-! ## Templates -/

mutual

/-- A node with all tags in it changed. -/
def mapTags (f : Tag → Tag) : Node → Node
  | .element tag children span => .element (f tag) (mapTagsAll f children) span
  | .text content span => .text content span
  | .interpolation exp span => .interpolation exp span

/-- Nodes with all tags in them changed. -/
def mapTagsAll (f : Tag → Tag) : List Node → List Node
  | [] => []
  | node :: nodes => mapTags f node :: mapTagsAll f nodes

end

section Templates

variable {f : Tag → Tag}

mutual

/-- A node is the same to its parent, or can be exchanged, if its tags are read the same. -/
theorem exchangeable_mapTags : ∀ node : Node, (∀ e ∈ node.elements, SameReading e.1 (f e.1)) →
    Sibling.ofNode (mapTags f node) = Sibling.ofNode node ∨
      Exchangeable (Sibling.ofNode node) (Sibling.ofNode (mapTags f node))
  | .element tag children span, h => by
    rw [Node.elements, List.forall_mem_cons] at h
    obtain ⟨htag, hchildren⟩ := h
    have hinner := exchanged_mapTagsAll children hchildren
    right
    simp only [mapTags, Sibling.ofNode, htag.buildElement, hinner.buildElement,
      hinner.buildSiblings]
    exact .element htag.sameView fun _ => rfl
  | .text .., _ => .inl rfl
  | .interpolation .., _ => .inl rfl

theorem exchanged_mapTagsAll : ∀ nodes : List Node,
    (∀ e ∈ Node.elementsAll nodes, SameReading e.1 (f e.1)) →
      Exchanged (Sibling.ofNodes nodes) (Sibling.ofNodes (mapTagsAll f nodes))
  | [], _ => .nil
  | node :: nodes, h => by
    rw [Node.elementsAll, List.forall_mem_append] at h
    exact .cons (exchangeable_mapTags node h.1) (exchanged_mapTagsAll nodes h.2)

end

/-- The code of a template is the same if its tags are changed to ones that are read the same. -/
theorem generate_mapTags (mode : Mode) {nodes : List Node}
    (h : ∀ e ∈ Node.elementsAll nodes, SameReading e.1 (f e.1)) :
    generate mode (mapTagsAll f nodes) = generate mode nodes := by
  rw [generate, generate, buildTemplate, buildTemplate,
    (exchanged_mapTagsAll nodes h).buildSiblings]

end Templates

/-! ## Items that are spelled out -/

section Items

variable {locals skipped : List Text} {key valueless : Text} {item : Item} {items : List Item}
  {tag : Tag}

theorem isShorthand_iff {d : Directive} : isShorthand (.directive d) ↔
    d.name = "bind".toList ∧ (∃ arg, d.arg = some arg) ∧ d.exp = none := by
  simp [isShorthand, Option.isSome_iff_exists, and_assoc]

/-- What is not left out is not written again. -/
theorem spelled_of_not_shorthand (h : isShorthand item = false) : spelled item = item := by
  rcases item with a | d
  · rfl
  · rw [spelled, h, if_neg Bool.false_ne_true]

/-- The expression that is written is the one that props have without it. -/
theorem assign_spelled : assign locals skipped (spelled item) = assign locals skipped item := by
  cases hshort : isShorthand item with
  | false => rw [spelled_of_not_shorthand hshort]
  | true =>
    rcases item with a | d
    · rfl
    · obtain ⟨hname, ⟨arg, harg⟩, hexp⟩ := isShorthand_iff.1 hshort
      have hbind : bind locals arg (selfBound d) = bind locals arg d := by
        rw [bind, bind, selfBound, harg, hexp]
        rfl
      rw [spelled, if_pos hshort, assign, assign, assignDirective, assignDirective,
        if_pos hname, if_pos (show (selfBound d).name = "bind".toList from hname), harg,
        show (selfBound d).arg = some arg from harg]
      simp only [hbind]

theorem refuseDynamic_spelled : refuseDynamic (items.map spelled) = refuseDynamic items := by
  induction items with
  | nil => rfl
  | cons item items ih =>
    rcases item with a | d
    · exact ih
    · rw [List.map_cons, spelled]
      split
      · rw [refuseDynamic, refuseDynamic, ih]
        rfl
      · rw [refuseDynamic, refuseDynamic, ih]

theorem directive?_spelled {name : Text} (hname : name ≠ "bind".toList) :
    (spelledTag tag).directive? name = tag.directive? name := by
  rw [Tag.directive?, Tag.directive?, spelledTag, List.findSome?_map]
  congr 1
  funext item
  cases hshort : isShorthand item with
  | false => rw [Function.comp_apply, spelled_of_not_shorthand hshort]
  | true =>
    rcases item with a | d
    · rfl
    · obtain ⟨hbind, -, -⟩ := isShorthand_iff.1 hshort
      have hne : d.name ≠ name := fun h => hname (h.symm.trans hbind)
      rw [Function.comp_apply, spelled, if_pos hshort]
      exact (if_neg hne).trans (if_neg hne).symm

theorem assignments_spelled :
    assignments locals skipped (items.map spelled) = assignments locals skipped items := by
  induction items with
  | nil => rfl
  | cons item items ih => rw [List.map_cons, assignments, assignments, assign_spelled, ih]

/-! ## Items that are passed over -/

/-- A binding without an expression gives nothing that is asked for. -/
theorem keyValue?_of_shorthand (h : isShorthand item) :
    keyValue? locals key valueless (item :: items) = keyValue? locals key valueless items := by
  rcases item with a | d
  · cases h
  · obtain ⟨-, -, hexp⟩ := isShorthand_iff.1 h
    rw [keyValue?, hexp]
    split <;> rfl

theorem keyValue?_of_not_gives (h : gives key item = false) :
    keyValue? locals key valueless (item :: items) = keyValue? locals key valueless items := by
  rcases item with a | d
  · rw [keyValue?, if_neg (of_decide_eq_false h)]
  · have hnot : ¬(d.name = "bind".toList ∧ d.arg = some key) := by
      simpa [gives] using h
    rw [keyValue?, if_neg hnot]

/-- The first item that writes a value for the key decides. -/
theorem keyValue?_of_gives (h : gives key item) (hshort : isShorthand item = false)
    (others : List Item) :
    keyValue? locals key valueless (item :: items) =
      keyValue? locals key valueless (item :: others) := by
  rcases item with a | d
  · have hname : a.name = key := of_decide_eq_true h
    rw [keyValue?, keyValue?, if_pos hname, if_pos hname]
  · have hgives : d.name = "bind".toList ∧ d.arg = some key := by
      simpa [gives] using h
    cases hexp : d.exp with
    | none =>
      exact absurd (isShorthand_iff.2 ⟨hgives.1, ⟨key, hgives.2⟩, hexp⟩) (by simp [hshort])
    | some exp =>
      rw [keyValue?, keyValue?, if_pos hgives, if_pos hgives, hexp]

theorem gives_spelled : gives key (spelled item) = gives key item := by
  rcases item with a | d
  · rfl
  · rw [spelled]
    split <;> rfl

/-! ## Tags that are spelled out -/

/-- With the items that are passed over, what is asked for is gone as well. -/
theorem keyValue?_heeded (hkey : askedKey? tag = some key) :
    keyValue? locals key valueless
        ((items.filter fun item => !isPassedOver tag item).map spelled) =
      keyValue? locals key valueless items := by
  induction items with
  | nil => rfl
  | cons item items ih =>
    have hpassed : isPassedOver tag item = (isShorthand item && gives key item) := by
      rw [isPassedOver, hkey]
      rfl
    cases hgives : gives key item with
    | false =>
      rw [List.filter_cons_of_pos (by simp [hpassed, hgives]), List.map_cons,
        keyValue?_of_not_gives (gives_spelled.trans hgives), keyValue?_of_not_gives hgives, ih]
    | true =>
      cases hshort : isShorthand item with
      | true =>
        rw [List.filter_cons_of_neg (by simp [hpassed, hgives, hshort]), ih,
          keyValue?_of_shorthand hshort]
      | false =>
        rw [List.filter_cons_of_pos (by simp [hpassed, hshort]), List.map_cons,
          spelled_of_not_shorthand hshort]
        exact keyValue?_of_gives hgives hshort _

/-- A binding to a key that has no props is no prop. -/
theorem assign_of_skipped (hshort : isShorthand item) (hgives : gives key item)
    (hskipped : key ∈ skipped) : assign locals skipped item = .ok none := by
  rcases item with a | d
  · cases hshort
  · have hbind : d.name = "bind".toList ∧ d.arg = some key := by
      simpa [gives] using hgives
    rw [assign, assignDirective, if_pos hbind.1, hbind.2]
    simp only [List.contains_iff_mem.2 hskipped, if_true]
    rfl

theorem assignments_filter {p : Item → Bool}
    (h : ∀ item ∈ items, p item = false → assign locals skipped item = .ok none) :
    assignments locals skipped (items.filter p) = assignments locals skipped items := by
  induction items with
  | nil => rfl
  | cons item items ih =>
    obtain ⟨hfirst, hothers⟩ := List.forall_mem_cons.1 h
    cases hp : p item with
    | true => rw [List.filter_cons_of_pos hp, assignments, assignments, ih hothers]
    | false =>
      rw [List.filter_cons_of_neg (by simp [hp]), ih hothers, assignments, hfirst hp]
      cases assignments locals skipped items with
      | error e => rfl
      | ok others => rfl

theorem isPassedOver_directive {d : Directive} (h : isPassedOver tag (.directive d)) :
    d.name = "bind".toList ∧ ∃ key, askedKey? tag = some key ∧ d.arg = some key := by
  rw [isPassedOver, Bool.and_eq_true, Option.any_eq_true] at h
  obtain ⟨-, key, hkey, hgives⟩ := h
  have hbind : d.name = "bind".toList ∧ d.arg = some key := by
    simpa [gives] using hgives
  exact ⟨hbind.1, key, hkey, hbind.2⟩

/-- What is asked for is no argument that is only known when rendering. -/
theorem head?_askedKey? (h : askedKey? tag = some key) : key.head? ≠ some '[' := by
  rw [askedKey?] at h
  split at h
  · cases h
    decide
  · split at h
    · cases h
      decide
    · cases h
  · cases h

theorem refuseDynamic_filter :
    refuseDynamic (items.filter fun item => !isPassedOver tag item) = refuseDynamic items := by
  induction items with
  | nil => rfl
  | cons item items ih =>
    rcases item with a | d
    · exact ih
    · cases hpassed : isPassedOver tag (.directive d) with
      | true =>
        obtain ⟨-, key, hkey, harg⟩ := isPassedOver_directive hpassed
        have hknown : (d.arg.getD []).head? ≠ some '[' := by
          rw [harg]
          exact head?_askedKey? hkey
        rw [List.filter_cons_of_neg (by simp [hpassed]), ih, refuseDynamic, if_neg hknown]
      | false =>
        rw [List.filter_cons_of_pos (by simp [hpassed]), refuseDynamic, refuseDynamic, ih]

theorem findSome?_filter {α : Type} {p : Item → Bool} {f : Item → Option α}
    (h : ∀ item, p item = false → f item = none) :
    (items.filter p).findSome? f = items.findSome? f := by
  induction items with
  | nil => rfl
  | cons item items ih =>
    cases hp : p item with
    | true => rw [List.filter_cons_of_pos hp, List.findSome?_cons, List.findSome?_cons, ih]
    | false => rw [List.filter_cons_of_neg (by simp [hp]), ih, List.findSome?_cons, h item hp]

theorem directive?_heeded {name : Text} (hname : name ≠ "bind".toList) :
    (heededTag tag).directive? name = tag.directive? name := by
  rw [heededTag, directive?_spelled hname, Tag.directive?, Tag.directive?]
  refine findSome?_filter fun item hitem => ?_
  rcases item with a | d
  · rfl
  · rw [Bool.not_eq_false'] at hitem
    obtain ⟨hbind, -⟩ := isPassedOver_directive hitem
    exact if_neg fun h => hname (h.symm.trans hbind)

theorem sameReading_heeded (tag : Tag) : SameReading tag (heededTag tag) where
  name := rfl
  kind := rfl
  dynamic := refuseDynamic_spelled.trans refuseDynamic_filter
  directive := fun _ hname => directive?_heeded hname
  props := by
    intro locals skipped hskipped
    refine assignments_spelled.trans (assignments_filter fun item _ hpassed => ?_)
    rw [Bool.not_eq_false', isPassedOver, Bool.and_eq_true, Option.any_eq_true] at hpassed
    obtain ⟨hshort, key, hkey, hgives⟩ := hpassed
    exact assign_of_skipped hshort hgives (hskipped key hkey)
  asked := fun locals valueless key hkey => keyValue?_heeded hkey

theorem keyValue?_spelled (h : !(items.find? (gives key)).any isShorthand) :
    keyValue? locals key valueless (items.map spelled) =
      keyValue? locals key valueless items := by
  induction items with
  | nil => rfl
  | cons item items ih =>
    rw [List.map_cons]
    cases hgives : gives key item with
    | false =>
      rw [List.find?_cons_of_neg (by simp [hgives])] at h
      rw [keyValue?_of_not_gives (gives_spelled.trans hgives), keyValue?_of_not_gives hgives, ih h]
    | true =>
      rw [List.find?_cons_of_pos hgives] at h
      have hshort : isShorthand item = false := by simpa using h
      rw [spelled_of_not_shorthand hshort]
      exact keyValue?_of_gives hgives hshort _

theorem sameReading_spelled (h : isSettled tag) : SameReading tag (spelledTag tag) where
  name := rfl
  kind := rfl
  dynamic := refuseDynamic_spelled
  directive := fun _ hname => directive?_spelled hname
  props := fun _ _ _ => assignments_spelled
  asked := by
    intro locals valueless key hkey
    rw [isSettled, hkey] at h
    exact keyValue?_spelled h

end Items

/-! ## Templates that are spelled out -/

/-- A template means the same with every binding spelled out that leaves out its expression, but for
those that are to name the slot of an outlet or to say what a dynamic component is: it is as if
these were not there. So all can be spelled out where none of these is the first that gives its
value. -/
theorem generate_shorthand (mode : Mode) (nodes : List Node) :
    generate mode (mapTagsAll heededTag nodes) = generate mode nodes ∧
      ((∀ e ∈ Node.elementsAll nodes, isSettled e.1) →
        generate mode (mapTagsAll spelledTag nodes) = generate mode nodes) :=
  ⟨generate_mapTags mode fun e _ => sameReading_heeded e.1,
    fun h => generate_mapTags mode fun e he => sameReading_spelled (h e he)⟩

/-- The tag of an outlet whose name is bound without an expression. -/
def unnamedOutlet : Tag :=
  ⟨"slot".toList, .outlet, [.directive ⟨"bind".toList, some "name".toList, none, [], ⟨6, 11⟩⟩]⟩

/-- A native tag with the same binding. -/
def namedParagraph : Tag :=
  { unnamedOutlet with name := "p".toList, kind := .native }

/-- An outlet is the default one if its name is bound without an expression, while a prop that is
bound so can as well be spelled out. -/
theorem generate_shorthand_unnamedOutlet :
    let outlet := [Node.element unnamedOutlet [] ⟨0, 13⟩]
    let paragraph := [Node.element namedParagraph [] ⟨0, 10⟩]
    parse "<slot :name/>".toList = .ok outlet ∧
      generate .module (mapTagsAll heededTag outlet) = generate .module outlet ∧
      (generate .function outlet).map RenderCode.code =
        .ok ("const \x7b renderSlot: _renderSlot \x7d = Vue\n\n".toList ++
          "return function render(_ctx, _cache) \x7b\n".toList ++
          "  return _renderSlot(_ctx.$slots, \"default\")\n\x7d\n".toList) ∧
      (generate .function (mapTagsAll spelledTag outlet)).map RenderCode.code =
        .ok ("const \x7b renderSlot: _renderSlot \x7d = Vue\n\n".toList ++
          "return function render(_ctx, _cache) \x7b\n".toList ++
          "  return _renderSlot(_ctx.$slots, _ctx.name)\n\x7d\n".toList) ∧
      generate .module (mapTagsAll spelledTag paragraph) = generate .module paragraph := by
  intro outlet paragraph
  have hsettled : ∀ e ∈ Node.elementsAll paragraph, isSettled e.1 := by decide
  exact ⟨by decide +kernel, (generate_shorthand .module outlet).1, by decide +kernel,
    by decide +kernel, (generate_shorthand .module paragraph).2 hsettled⟩

end ModuleServer.Render
