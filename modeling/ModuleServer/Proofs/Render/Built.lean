import Mathlib.Data.List.Forall2
import ModuleServer.Render.Build

/-!
# When building succeeds

What it means that something has been built: the parts that were built before, and how the result is
made of them. There is one such statement for each function that builds.

* `Chained` says what the members of a conditional chain become, from the first to the last.
* `loopOf` and `testOf` are what a tag says about its loop and its condition.
-/

namespace ModuleServer.Render

open Text Template
open List (Forall₂)

/-! ## Steps -/

section Steps

variable {ε α β : Type}

theorem bind_eq_ok {x : Except ε α} {f : α → Except ε β} {b : β} :
    (x >>= f) = .ok b ↔ ∃ a, x = .ok a ∧ f a = .ok b := by
  cases x with
  | error e =>
    constructor
    · intro h
      cases h
    · rintro ⟨a, h, -⟩
      cases h
  | ok a =>
    constructor
    · intro h
      exact ⟨a, rfl, h⟩
    · rintro ⟨a', h, hb⟩
      cases h
      exact hb

theorem map_eq_ok {x : Except ε α} {f : α → β} {b : β} :
    x.map f = .ok b ↔ ∃ a, x = .ok a ∧ b = f a := by
  cases x with
  | error e =>
    constructor
    · intro h
      cases h
    · rintro ⟨a, h, -⟩
      cases h
  | ok a =>
    constructor
    · intro h
      cases h
      exact ⟨a, rfl, rfl⟩
    · rintro ⟨a', h, rfl⟩
      cases h
      rfl

theorem mapM_eq_ok {f : α → Except ε β} {as : List α} {bs : List β} :
    as.mapM f = .ok bs ↔ Forall₂ (fun a b => f a = .ok b) as bs := by
  induction as generalizing bs with
  | nil =>
    constructor
    · intro h
      cases h
      exact .nil
    · intro h
      cases h
      rfl
  | cons a as ih =>
    rw [List.mapM_cons, bind_eq_ok, List.forall₂_cons_left_iff]
    constructor
    · rintro ⟨b, hb, h⟩
      obtain ⟨others, hothers, h⟩ := bind_eq_ok.1 h
      cases h
      exact ⟨b, others, hb, ih.1 hothers, rfl⟩
    · rintro ⟨b, others, hb, hothers, rfl⟩
      exact ⟨b, hb, bind_eq_ok.2 ⟨others, ih.2 hothers, rfl⟩⟩

/-- What is related to two lists one behind the other. -/
theorem forall₂_append_left {R : α → β → Prop} {as as' : List α} {bs : List β} :
    Forall₂ R (as ++ as') bs ↔
      ∃ front behind, Forall₂ R as front ∧ Forall₂ R as' behind ∧ bs = front ++ behind := by
  constructor
  · intro h
    refine ⟨bs.take as.length, bs.drop as.length, ?_, ?_, (List.take_append_drop _ _).symm⟩
    · simpa using List.forall₂_take as.length h
    · simpa using List.forall₂_drop as.length h
  · rintro ⟨front, behind, hfront, hbehind, rfl⟩
    exact List.rel_append hfront hbehind

theorem exists_of_forall₂_mem {R : α → β → Prop} {as : List α} {bs : List β} (h : Forall₂ R as bs)
    {b : β} (hb : b ∈ bs) : ∃ a ∈ as, R a b := by
  induction h with
  | nil => cases hb
  | cons hr _ ih =>
    rcases List.mem_cons.1 hb with rfl | hb
    · exact ⟨_, List.mem_cons_self .., hr⟩
    · obtain ⟨a, ha, hr'⟩ := ih hb
      exact ⟨a, List.mem_cons_of_mem _ ha, hr'⟩

end Steps

variable {locals : List Text} {tag : Tag} {span : Span} {children siblings : List Sibling}

/-- What a tag is asked for is one of its directives, under the name that is asked for. -/
theorem mem_of_directive? {name : Text} {d : Directive} (h : tag.directive? name = some d) :
    Item.directive d ∈ tag.items ∧ d.name = name := by
  obtain ⟨item, hitem, hfound⟩ := List.exists_of_findSome?_eq_some h
  rcases item with attr | d'
  · cases hfound
  · dsimp only at hfound
    split at hfound
    · rename_i hname
      obtain rfl := Option.some.inj hfound
      exact ⟨hitem, hname⟩
    · cases hfound

/-! ## Siblings -/

theorem ofNodes_eq_map (nodes : List Node) : Sibling.ofNodes nodes = nodes.map Sibling.ofNode := by
  induction nodes with
  | nil => rfl
  | cons node nodes ih => rw [Sibling.ofNodes, ih, List.map_cons]

theorem isElement_ofNode (node : Node) : (Sibling.ofNode node).isElement = node.isElement := by
  cases node <;> rfl

theorem isBlank_ofNode (node : Node) : (Sibling.ofNode node).isBlank = node.isBlank := by
  cases node <;> rfl

theorem buildSiblings_eq_ok {vs : List VNode} :
    buildSiblings locals siblings = .ok vs ↔
      Forall₂ (fun g v => Group.build locals g = .ok v) (groups siblings) vs :=
  mapM_eq_ok

/-- The condition of a tag in the context, if it has one. -/
def testOf (locals : List Text) (tag : Tag) : Built (Option Text) :=
  match (tag.directive? "if".toList).or (tag.directive? "else-if".toList) with
  | some d => do
    let exp ← required d
    return some (← inContext locals exp)
  | none => .ok none

/-- What the members of a chain become: each that has a condition stands in front of those behind
it, the last one stands by itself if it is an alternative without a condition. -/
inductive Chained (locals : List Text) : List Branch → VNode → Prop where
  | hidden : Chained locals [] .hidden
  | otherwise {b : Branch} {v : VNode} (helse : b.tag.has "else".toList)
      (h : b.build locals = .ok v) : Chained locals [b] v
  | test {b : Branch} {others : List Branch} {test : Text} {v no : VNode}
      (hlast : others = [] → b.tag.has "else".toList = false)
      (htest : testOf locals b.tag = .ok (some test)) (h : b.build locals = .ok v)
      (hothers : Chained locals others no) : Chained locals (b :: others) (.choice test v no)

/-- What conditions put around a node make of it, the first condition being the outermost. -/
inductive Chosen (locals : List Text) (otherwise : VNode) : List Branch → VNode → Prop where
  | nil : Chosen locals otherwise [] otherwise
  | cons {b : Branch} {others : List Branch} {test : Text} {v no : VNode}
      (htest : testOf locals b.tag = .ok (some test)) (h : b.build locals = .ok v)
      (hothers : Chosen locals otherwise others no) :
      Chosen locals otherwise (b :: others) (.choice test v no)

theorem choose_append (otherwise : VNode) (inner outer : List Branch) :
    choose locals otherwise (inner ++ outer) =
      choose locals otherwise inner >>= fun v => choose locals v outer := by
  induction inner generalizing otherwise with
  | nil => rfl
  | cons b inner ih =>
    simp only [List.cons_append, choose, ih, bind_assoc]

/-- One more condition around a node. -/
theorem choose_singleton_eq_ok {otherwise w : VNode} {b : Branch} :
    choose locals otherwise [b] = .ok w ↔
      ∃ test v, testOf locals b.tag = .ok (some test) ∧ b.build locals = .ok v ∧
        w = .choice test v otherwise := by
  rw [choose, condition, testOf]
  cases (b.tag.directive? "if".toList).or (b.tag.directive? "else-if".toList) with
  | none =>
    constructor
    · intro h
      cases h
    · rintro ⟨test, v, h, -⟩
      cases h
  | some d =>
    constructor
    · intro h
      obtain ⟨exp, hexp, h⟩ := bind_eq_ok.1 h
      obtain ⟨v, hv, h⟩ := bind_eq_ok.1 h
      obtain ⟨test, htest, h⟩ := bind_eq_ok.1 h
      cases h
      exact ⟨test, v, bind_eq_ok.2 ⟨exp, hexp, bind_eq_ok.2 ⟨test, htest, rfl⟩⟩, hv, rfl⟩
    · rintro ⟨test, v, htest, hv, rfl⟩
      obtain ⟨exp, hexp, h⟩ := bind_eq_ok.1 htest
      obtain ⟨test', htest', h⟩ := bind_eq_ok.1 h
      cases h
      exact bind_eq_ok.2 ⟨exp, hexp, bind_eq_ok.2 ⟨v, hv, bind_eq_ok.2 ⟨test, htest', rfl⟩⟩⟩

theorem choose_reverse_eq_ok {otherwise w : VNode} {branches : List Branch} :
    choose locals otherwise branches.reverse = .ok w ↔ Chosen locals otherwise branches w := by
  induction branches generalizing w with
  | nil =>
    constructor
    · intro h
      cases h
      exact .nil
    · intro h
      cases h
      rfl
  | cons b others ih =>
    rw [List.reverse_cons, choose_append, bind_eq_ok]
    constructor
    · rintro ⟨no, hno, h⟩
      obtain ⟨test, v, htest, hv, rfl⟩ := choose_singleton_eq_ok.1 h
      exact .cons htest hv (ih.1 hno)
    · intro h
      cases h with
      | cons htest hv hothers =>
        exact ⟨_, ih.2 hothers, choose_singleton_eq_ok.2 ⟨_, _, htest, hv, rfl⟩⟩

theorem chained_iff_otherwise {last : Branch} {w : VNode} (helse : last.tag.has "else".toList)
    (front : List Branch) :
    Chained locals (front ++ [last]) w ↔
      ∃ otherwise, last.build locals = .ok otherwise ∧ Chosen locals otherwise front w := by
  induction front generalizing w with
  | nil =>
    constructor
    · intro h
      cases h with
      | otherwise _ h => exact ⟨w, h, .nil⟩
      | test hlast => exact absurd (helse.symm.trans (hlast rfl)) Bool.noConfusion
    · rintro ⟨otherwise, h, hchosen⟩
      cases hchosen
      exact .otherwise helse h
  | cons b front ih =>
    constructor
    · intro h
      rw [List.cons_append] at h
      generalize hall : front ++ [last] = others at h
      cases h with
      | otherwise => simp at hall
      | test hlast htest hv hothers =>
        rw [← hall] at hothers
        obtain ⟨otherwise, h, hchosen⟩ := ih.1 hothers
        exact ⟨otherwise, h, .cons htest hv hchosen⟩
    · rintro ⟨otherwise, h, hchosen⟩
      cases hchosen with
      | cons htest hv hothers =>
        exact .test (by simp) htest hv (ih.2 ⟨otherwise, h, hothers⟩)

theorem chained_iff_hidden {last : Branch} {w : VNode}
    (helse : last.tag.has "else".toList = false) (front : List Branch) :
    Chained locals (front ++ [last]) w ↔ Chosen locals .hidden (front ++ [last]) w := by
  induction front generalizing w with
  | nil =>
    constructor
    · intro h
      cases h with
      | otherwise htrue => exact absurd (htrue.symm.trans helse) Bool.noConfusion
      | test _ htest hv hothers =>
        cases hothers
        exact .cons htest hv .nil
    · intro h
      cases h with
      | cons htest hv hothers =>
        cases hothers
        exact .test (fun _ => helse) htest hv .hidden
  | cons b front ih =>
    constructor
    · intro h
      rw [List.cons_append] at h
      generalize hall : front ++ [last] = others at h
      cases h with
      | otherwise => simp at hall
      | test hlast htest hv hothers =>
        rw [← hall] at hothers
        rw [List.cons_append]
        exact .cons htest hv (ih.1 hothers)
    · intro h
      cases h with
      | cons htest hv hothers => exact .test (by simp) htest hv (ih.2 hothers)

theorem buildChain_eq_ok {first : Branch} {others : List Branch} {w : VNode} :
    buildChain locals first others = .ok w ↔
      ∃ v, Chained locals (first :: others) v ∧ w = .chain v := by
  have hsplit := List.dropLast_append_getLast (List.cons_ne_nil first others)
  generalize hlast : (first :: others).getLast (List.cons_ne_nil first others) = last at hsplit
  generalize hfront : (first :: others).dropLast = front at hsplit
  rw [buildChain]
  simp only [hlast, hfront]
  rw [← hsplit]
  by_cases helse : last.tag.has "else".toList
  · rw [if_pos helse]
    simp only [chained_iff_otherwise helse]
    constructor
    · intro h
      obtain ⟨otherwise, hotherwise, h⟩ := bind_eq_ok.1 h
      obtain ⟨v, hv, h⟩ := bind_eq_ok.1 h
      cases h
      exact ⟨v, ⟨otherwise, hotherwise, choose_reverse_eq_ok.1 hv⟩, rfl⟩
    · rintro ⟨v, ⟨otherwise, hotherwise, hv⟩, rfl⟩
      exact bind_eq_ok.2 ⟨otherwise, hotherwise,
        bind_eq_ok.2 ⟨v, choose_reverse_eq_ok.2 hv, rfl⟩⟩
  · rw [if_neg helse]
    simp only [chained_iff_hidden (Bool.eq_false_iff.2 helse)]
    constructor
    · intro h
      obtain ⟨v, hv, h⟩ := bind_eq_ok.1 h
      cases h
      exact ⟨v, choose_reverse_eq_ok.1 hv, rfl⟩
    · rintro ⟨v, hv, rfl⟩
      exact bind_eq_ok.2 ⟨v, choose_reverse_eq_ok.2 hv, rfl⟩

/-! ## Loops -/

/-- The names that the loop of a tag binds. -/
def loopNames (tag : Tag) : List Text :=
  match ((tag.directive? "for".toList).bind fun d => d.exp).bind readLoop? with
  | some (names, _) => Expression.bindingNames names
  | none => []

/-- The source of a tag's loop in the context, and the names of the loop as written, if the tag has
one. -/
def loopOf (locals : List Text) (tag : Tag) : Built (Option (Text × Text)) :=
  match tag.directive? "for".toList with
  | none => .ok none
  | some d => do
    let exp ← required d
    match readLoop? exp with
    | none => refuse (.invalidLoop exp) d.span
    | some (names, source) => return some (← inContext locals source, names)

/-- A node once for each item of a loop, if there is a loop. -/
def repeated (loop : Option (Text × Text)) (item : VNode) : VNode :=
  match loop with
  | none => item
  | some (source, names) => .list source names item

theorem required_eq_ok {d : Directive} {exp : Text} : required d = .ok exp ↔ d.exp = some exp := by
  rw [required]
  cases d.exp with
  | none =>
    constructor
    · intro h
      cases h
    · intro h
      cases h
  | some exp' =>
    constructor
    · intro h
      cases h
      rfl
    · intro h
      cases h
      rfl

/-- A tag with a loop has one that can be read. -/
theorem loopOf_eq_ok {d : Directive} (hd : tag.directive? "for".toList = some d)
    {loop : Option (Text × Text)} :
    loopOf locals tag = .ok loop ↔
      ∃ exp names source src, d.exp = some exp ∧ readLoop? exp = some (names, source) ∧
        inContext locals source = .ok src ∧ loop = some (src, names) := by
  rw [loopOf, hd]
  constructor
  · intro h
    obtain ⟨exp, hexp, h⟩ := bind_eq_ok.1 h
    cases hread : readLoop? exp with
    | none =>
      rw [hread] at h
      cases h
    | some found =>
      rw [hread] at h
      obtain ⟨src, hsrc, h⟩ := bind_eq_ok.1 h
      cases h
      exact ⟨exp, found.1, found.2, src, required_eq_ok.1 hexp, hread, hsrc, rfl⟩
  · rintro ⟨exp, names, source, src, hexp, hread, hsrc, rfl⟩
    refine bind_eq_ok.2 ⟨exp, required_eq_ok.2 hexp, ?_⟩
    rw [hread]
    exact bind_eq_ok.2 ⟨src, hsrc, rfl⟩

theorem loopNames_eq {d : Directive} (hd : tag.directive? "for".toList = some d)
    {exp names source : Text} (hexp : d.exp = some exp)
    (hread : readLoop? exp = some (names, source)) :
    loopNames tag = Expression.bindingNames names := by
  simp only [loopNames, hd, Option.bind_some, hexp, hread]

/-- An element is built where the names of its loop are bound, and stands inside of the loop. -/
theorem buildElement_eq_ok {v : VNode} :
    buildElement tag span children locals = .ok v ↔
      refuseDynamic tag.items = .ok () ∧ ∃ loop item, loopOf locals tag = .ok loop ∧
        buildPlain tag span children (loopNames tag ++ locals) = .ok item ∧
        v = repeated loop item := by
  rw [buildElement, bind_eq_ok]
  cases hfor : tag.directive? "for".toList with
  | none =>
    have hloop : loopOf locals tag = .ok none := by
      rw [loopOf, hfor]
    have hnames : loopNames tag = [] := by
      rw [loopNames, hfor]
      rfl
    rw [hloop, hnames]
    constructor
    · rintro ⟨_, hdynamic, h⟩
      exact ⟨hdynamic, none, v, rfl, h, rfl⟩
    · rintro ⟨hdynamic, loop, item, hnone, h, rfl⟩
      cases hnone
      exact ⟨(), hdynamic, h⟩
  | some d =>
    dsimp only
    constructor
    · rintro ⟨_, hdynamic, h⟩
      obtain ⟨exp, hexp, h⟩ := bind_eq_ok.1 h
      rw [required_eq_ok] at hexp
      cases hread : readLoop? exp with
      | none =>
        rw [hread] at h
        cases h
      | some found =>
        obtain ⟨names, source⟩ := found
        rw [hread] at h
        obtain ⟨item, hitem, h⟩ := bind_eq_ok.1 h
        obtain ⟨src, hsrc, h⟩ := bind_eq_ok.1 h
        cases h
        rw [← loopNames_eq hfor hexp hread] at hitem
        exact ⟨hdynamic, some (src, names), item,
          (loopOf_eq_ok hfor).2 ⟨exp, names, source, src, hexp, hread, hsrc, rfl⟩, hitem, rfl⟩
    · rintro ⟨hdynamic, loop, item, hloop, hitem, rfl⟩
      obtain ⟨exp, names, source, src, hexp, hread, hsrc, rfl⟩ := (loopOf_eq_ok hfor).1 hloop
      rw [loopNames_eq hfor hexp hread] at hitem
      refine ⟨(), hdynamic, bind_eq_ok.2 ⟨exp, required_eq_ok.2 hexp, ?_⟩⟩
      rw [hread]
      exact bind_eq_ok.2 ⟨item, hitem, bind_eq_ok.2 ⟨src, hsrc, rfl⟩⟩

/-! ## Kinds of elements -/

/-- A native element with a content. -/
def Content.node (name : Text) (props : List Assignment) : Content → VNode
  | .none => .leaf name props
  | .text run => .labelled name props run
  | .nodes children => .parent name props children

theorem buildNative_eq_ok {v : VNode} :
    buildNative locals tag children = .ok v ↔
      ∃ props content, assignments locals [] tag.items = .ok props ∧
        buildContent locals tag children = .ok content ∧ v = content.node tag.name props := by
  rw [buildNative, bind_eq_ok]
  constructor
  · rintro ⟨props, hprops, h⟩
    obtain ⟨content, hcontent, h⟩ := bind_eq_ok.1 h
    refine ⟨props, content, hprops, hcontent, ?_⟩
    cases content with
    | none =>
      cases h
      rfl
    | text run =>
      cases h
      rfl
    | nodes children =>
      cases h
      rfl
  · rintro ⟨props, content, hprops, hcontent, rfl⟩
    refine ⟨props, hprops, bind_eq_ok.2 ⟨content, hcontent, ?_⟩⟩
    cases content <;> rfl

theorem buildOutlet_eq_ok {v : VNode} :
    buildOutlet locals tag children = .ok v ↔
      ∃ name props fallback,
        keyValue? locals "name".toList "default".toList tag.items = .ok name ∧
        assignments locals ["name".toList] tag.items = .ok props ∧
        buildSiblings locals children = .ok fallback ∧
        v = .outlet (name.getD (.literal "default".toList)) props fallback := by
  rw [buildOutlet, bind_eq_ok]
  constructor
  · rintro ⟨name, hname, h⟩
    obtain ⟨props, hprops, h⟩ := bind_eq_ok.1 h
    obtain ⟨fallback, hfallback, h⟩ := bind_eq_ok.1 h
    cases h
    exact ⟨name, props, fallback, hname, hprops, hfallback, rfl⟩
  · rintro ⟨name, props, fallback, hname, hprops, hfallback, rfl⟩
    exact ⟨name, hname, bind_eq_ok.2 ⟨props, hprops, bind_eq_ok.2 ⟨fallback, hfallback, rfl⟩⟩⟩

theorem buildComponent_eq_ok {v : VNode} :
    buildComponent locals tag span children = .ok v ↔
      ∃ target props slots, buildTarget locals tag span = .ok target ∧
        assignments locals ["is".toList] tag.items = .ok props ∧
        buildSlots locals tag children = .ok slots ∧ v = .component target props slots := by
  rw [buildComponent, bind_eq_ok]
  constructor
  · rintro ⟨target, htarget, h⟩
    obtain ⟨props, hprops, h⟩ := bind_eq_ok.1 h
    obtain ⟨slots, hslots, h⟩ := bind_eq_ok.1 h
    cases h
    exact ⟨target, props, slots, htarget, hprops, hslots, rfl⟩
  · rintro ⟨target, props, slots, htarget, hprops, hslots, rfl⟩
    exact ⟨target, htarget, bind_eq_ok.2 ⟨props, hprops, bind_eq_ok.2 ⟨slots, hslots, rfl⟩⟩⟩

/-! ## Slots -/

/-- The parameters of the slot of a tag, as written. -/
def slotParams (tag : Tag) : Text :=
  match tag.directive? "slot".toList with
  | some d => trim (d.exp.getD [])
  | none => []

/-- The names that the slot of a tag binds. -/
def slotNames (tag : Tag) : List Text :=
  Expression.bindingNames (slotParams tag)

/-- The siblings that are passed as slots of their own to a component. -/
def passedSlots (locals : List Text) (tag : Tag) (children : List Sibling) :
    List (Built (Slot VNode)) :=
  if tag.has "slot".toList then [] else children.filterMap (namedSlot? locals)

/-- The siblings that stand in a component by themselves. -/
def ownChildren (tag : Tag) (children : List Sibling) : List Sibling :=
  if tag.has "slot".toList then children
  else children.filter fun c => (slotDirective? c).isNone

theorem slotParams_of_not_has (h : tag.has "slot".toList = false) : slotParams tag = [] := by
  rw [Tag.has, Option.isSome_eq_false_iff, Option.isNone_iff_eq_none] at h
  rw [slotParams, h]

theorem slotNames_of_not_has (h : tag.has "slot".toList = false) : slotNames tag = [] := by
  rw [slotNames, slotParams_of_not_has h]
  simp [Expression.bindingNames]

theorem buildSlot_eq_ok {d : Directive} (hd : tag.directive? "slot".toList = some d)
    {content : List Text → Built (List VNode)} {slot : Slot VNode} :
    buildSlot locals d tag content = .ok slot ↔
      refuseDynamic tag.items = .ok () ∧ ∃ vs, content (slotNames tag ++ locals) = .ok vs ∧
        slot = ⟨d.arg.getD "default".toList, slotParams tag, vs, false⟩ := by
  have hparams : slotParams tag = trim (d.exp.getD []) := by
    rw [slotParams, hd]
  rw [buildSlot, bind_eq_ok, slotNames, hparams]
  constructor
  · rintro ⟨_, hdynamic, h⟩
    obtain ⟨vs, hvs, h⟩ := bind_eq_ok.1 h
    cases h
    exact ⟨hdynamic, vs, hvs, rfl⟩
  · rintro ⟨hdynamic, vs, hvs, rfl⟩
    exact ⟨(), hdynamic, bind_eq_ok.2 ⟨vs, hvs, rfl⟩⟩

/-- The slots of a component are those that are passed, and one for what stands in it by itself. -/
theorem buildSlots_eq_ok {slots : List (Slot VNode)} :
    buildSlots locals tag children = .ok slots ↔
      ∃ named own, slots = named ++ own ∧
        Forall₂ (fun built slot => built = .ok slot) (passedSlots locals tag children) named ∧
        ((ownChildren tag children).all Sibling.isBlank = true ∧ own = [] ∨
          (ownChildren tag children).all Sibling.isBlank = false ∧
            ∃ vs, buildSiblings (slotNames tag ++ locals) (ownChildren tag children) = .ok vs ∧
              own = [⟨"default".toList, slotParams tag, vs, true⟩]) := by
  have hown : ∀ own : List (Slot VNode),
      Forall₂ (fun built slot => built = .ok slot)
        (implicitSlot? locals (slotParams tag) (ownChildren tag children)).toList own ↔
      ((ownChildren tag children).all Sibling.isBlank = true ∧ own = [] ∨
          (ownChildren tag children).all Sibling.isBlank = false ∧
            ∃ vs, buildSiblings (slotNames tag ++ locals) (ownChildren tag children) = .ok vs ∧
              own = [⟨"default".toList, slotParams tag, vs, true⟩]) := by
    intro own
    rw [implicitSlot?]
    cases hall : (ownChildren tag children).all Sibling.isBlank with
    | true => simp
    | false =>
      simp only [Bool.false_eq_true, if_false, Option.toList_some, false_and, true_and, false_or]
      constructor
      · intro h
        rcases h with _ | ⟨h, hnil⟩
        cases hnil
        obtain ⟨vs, hvs, h⟩ := bind_eq_ok.1 h
        cases h
        exact ⟨vs, hvs, rfl⟩
      · rintro ⟨vs, hvs, rfl⟩
        exact .cons (bind_eq_ok.2 ⟨vs, hvs, rfl⟩) .nil
  have hslots : buildSlots locals tag children =
      (passedSlots locals tag children ++
        (implicitSlot? locals (slotParams tag) (ownChildren tag children)).toList).mapM id := by
    rw [buildSlots, passedSlots, ownChildren, slotParams, Tag.has]
    cases tag.directive? "slot".toList with
    | none => rfl
    | some d => rfl
  rw [hslots, mapM_eq_ok]
  constructor
  · intro h
    obtain ⟨named, own, hnamed, hrest, rfl⟩ := forall₂_append_left.1 h
    exact ⟨named, own, rfl, hnamed, (hown own).1 hrest⟩
  · rintro ⟨named, own, rfl, hnamed, hrest⟩
    exact forall₂_append_left.2 ⟨named, own, hnamed, (hown own).2 hrest, rfl⟩

end ModuleServer.Render
