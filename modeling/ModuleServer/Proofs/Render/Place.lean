import ModuleServer.Proofs.Render.Seat
import ModuleServer.Render.Module

/-!
# Places in a template and in its virtual nodes

An element of a template stands at a place (`Place`), and what it is built as stands at a spot of
the virtual nodes (`Spot`): under the conditions and loops that are put around it, beside other
nodes, inside what holds these.

`Carries` says that one computation is part of another: the result of the outer one is that of the
inner one put somewhere, whatever the inner one gives. What stands at a place of a template is
carried to the template's virtual nodes (`carries_place`), the element itself to a spot there
(`exists_spot`).
-/

namespace ModuleServer.Render

open Text Template
open List (Forall₂)

/-! ## Places -/

/-- Whether the children of a tag's element are drawn. A native element that has a text or inner
markup of its own shows that instead. -/
def drawsChildren (tag : Tag) : Bool :=
  !(tag.kind = .native && (tag.has "text".toList || tag.has "html".toList))

/-- Whether templates right inside a tag's element may be passed as slots. -/
def admitsSlots (tag : Tag) : Bool :=
  tag.kind = .component && !tag.has "slot".toList

/-- Whether a tag is one of a template with a slot's directive. -/
def isSlotTemplate (tag : Tag) : Bool :=
  tag.kind = .template && tag.has "slot".toList

/-- The names that a tag binds right inside its element, apart from those of its loop. -/
def innerNames (tag : Tag) : List Text :=
  if tag.kind = .component then slotNames tag else []

/-- The siblings that are grouped with a child of a tag's element. -/
def beside (tag : Tag) (children : List Sibling) : List Sibling :=
  if admitsSlots tag then children.filter fun c => (slotDirective? c).isNone else children

/-- Where a node stands in a template. -/
inductive Place where
  /-- Between other roots. -/
  | root (before behind : List Node)
  /-- Between other children of an element. -/
  | inside (outer : Place) (tag : Tag) (span : Span) (before behind : List Node)

namespace Place

/-- The template with a node at the place. -/
def fill : Place → Node → List Node
  | root before behind, node => before ++ node :: behind
  | inside outer tag span before behind, node =>
    outer.fill (.element tag (before ++ node :: behind) span)

/-- Whether what stands at the place is drawn. -/
def isDrawn : Place → Bool
  | root .. => true
  | inside outer tag .. => drawsChildren tag && outer.isDrawn

/-- Whether an element of the tag is passed as a slot if it stands at the place. -/
def passes : Place → Tag → Bool
  | root .., _ => false
  | inside _ outer .., tag => admitsSlots outer && isSlotTemplate tag

/-- The names that are bound at the place. -/
def locals : Place → List Text
  | root .. => []
  | inside outer tag .. =>
    if outer.passes tag then slotNames tag ++ outer.locals
    else innerNames tag ++ (loopNames tag ++ outer.locals)

/-- The siblings that a node at the place is grouped with, and that stand before it. -/
def before : Place → List Sibling
  | root before _ => Sibling.ofNodes before
  | inside _ tag _ before _ => beside tag (Sibling.ofNodes before)

/-- The siblings that a node at the place is grouped with, and that stand behind it. -/
def behind : Place → List Sibling
  | root _ behind => Sibling.ofNodes behind
  | inside _ tag _ _ behind => beside tag (Sibling.ofNodes behind)

end Place

/-! ## Spots -/

/-- What decides whether, or how often, a node is shown. -/
inductive Guard where
  /-- A condition that holds. -/
  | holds (test : Text)
  /-- A condition that fails. -/
  | fails (test : Text)
  /-- A source, each item of which has a node. -/
  | each (source : Text)
deriving DecidableEq, Repr

/-- What is put around a node before the node is put beside others. -/
inductive Wrap where
  /-- A conditional chain. -/
  | chain
  /-- A condition, where it holds. -/
  | yes (test : Text) (other : VNode)
  /-- A condition, where it fails. -/
  | no (test : Text) (other : VNode)
  /-- A loop. -/
  | list (source names : Text)

namespace Wrap

/-- A node with something put around it. -/
def fill : Wrap → VNode → VNode
  | .chain, v => .chain v
  | .yes test other, v => .choice test v other
  | .no test other, v => .choice test other v
  | .list source names, v => .list source names v

/-- What decides about the node. -/
def guard? : Wrap → Option Guard
  | .chain => none
  | .yes test _ => some (.holds test)
  | .no test _ => some (.fails test)
  | .list source _ => some (.each source)

/-- A node with all put around it, the first being the outermost. -/
def fillAll (wraps : List Wrap) (v : VNode) : VNode :=
  wraps.foldr fill v

/-- What decides about a node with all put around it, from the outside. -/
def guards (wraps : List Wrap) : List Guard :=
  wraps.filterMap guard?

theorem fillAll_append (outer inner : List Wrap) (v : VNode) :
    fillAll (outer ++ inner) v = fillAll outer (fillAll inner v) :=
  List.foldr_append

theorem guards_append (outer inner : List Wrap) :
    guards (outer ++ inner) = guards outer ++ guards inner :=
  List.filterMap_append

/-- What a loop puts around a node. -/
def ofLoop (loop : Option (Text × Text)) : List Wrap :=
  loop.toList.map fun (source, names) => list source names

theorem repeated_eq (loop : Option (Text × Text)) (item : VNode) :
    repeated loop item = fillAll (ofLoop loop) item := by
  rcases loop with _ | ⟨source, names⟩ <;> rfl

theorem guards_ofLoop (loop : Option (Text × Text)) :
    guards (ofLoop loop) = loop.toList.map fun (source, _) => .each source := by
  rcases loop with _ | ⟨source, names⟩ <;> rfl

end Wrap

/-- What holds nodes. -/
inductive Holder where
  /-- A native element. -/
  | parent (tag : Text) (props : List Assignment)
  /-- A place for a slot. -/
  | outlet (name : Value) (props : List Assignment)
  /-- No element. -/
  | fragment
  /-- A slot that is passed to a component, between other slots. -/
  | slot (target : Target) (props : List Assignment) (before : List (Slot VNode))
    (name params : Text) (implicit : Bool) (behind : List (Slot VNode))

/-- What holds nodes, with the nodes. -/
def Holder.fill : Holder → List VNode → VNode
  | parent tag props, vs => .parent tag props vs
  | outlet name props, vs => .outlet name props vs
  | fragment, vs => .fragment vs
  | slot target props before name params implicit behind, vs =>
    .component target props (before ++ ⟨name, params, vs, implicit⟩ :: behind)

/-- What is around nodes. -/
inductive Surroundings where
  /-- Nothing. -/
  | roots
  /-- What holds them, with what is around that. -/
  | inside (around : Surroundings) (before : List VNode) (wraps : List Wrap)
    (behind : List VNode) (holder : Holder)

/-- All roots, with nodes in their surroundings. -/
def Surroundings.fill : Surroundings → List VNode → List VNode
  | roots, vs => vs
  | inside around before wraps behind holder, vs =>
    around.fill (before ++ Wrap.fillAll wraps (holder.fill vs) :: behind)

/-- Where a virtual node stands among all. -/
structure Spot where
  /-- What is around the node and those beside it. -/
  around : Surroundings
  /-- The nodes before it. -/
  before : List VNode
  /-- What is put around the node itself. -/
  wraps : List Wrap
  /-- The nodes behind it. -/
  behind : List VNode

/-- All roots, with a node at the spot. -/
def Spot.fill (spot : Spot) (v : VNode) : List VNode :=
  spot.around.fill (spot.before ++ Wrap.fillAll spot.wraps v :: spot.behind)

/-! ## Computations inside of others -/

/-- The inner computation is part of the outer one: it gives a result in one case, and in every case
in which it gives one, the outer computation puts that where `fill` says. -/
structure Carries {ι α β : Type} (i : ι) (inner : ι → Built α) (outer : ι → Built β)
    (fill : α → β) : Prop where
  exists_ok : ∃ a, inner i = .ok a
  ok : ∀ {j a}, inner j = .ok a → outer j = .ok (fill a)

theorem Carries.trans {ι α β γ : Type} {i : ι} {f : ι → Built α} {g : ι → Built β}
    {h : ι → Built γ} {fill : α → β} {outerFill : β → γ} (hf : Carries i f g fill)
    (hg : Carries i g h outerFill) : Carries i f h (outerFill ∘ fill) :=
  ⟨hf.exists_ok, fun hj => hg.ok (hf.ok hj)⟩

/-! ## From siblings to virtual nodes -/

section Siblings

variable {ι : Type} {locals : List Text} {tag : Tag} {span : Span}

/-- The guards that an element of the tag has among its siblings: conditions before it in its chain,
which fail, and its own, which holds. It has none of its own if it has no condition, and it may have
none if it is an alternative to all others as well. -/
def ChainGuards (locals : List Text) (tag : Tag) (guards : List Guard) : Prop :=
  ∃ (refused : List Text) (test : Option Text),
    (testOf locals tag = .ok test ∨ tag.has "else".toList ∧ test = none) ∧
      guards = refused.map .fails ++ test.toList.map .holds

/-- A member of a chain stands in it behind the conditions before it, which fail, and under its own,
which holds, unless it is the last and an alternative without a condition. -/
theorem Chained.exists_wraps {build : List Text → Built VNode} {front behind : List Branch}
    {w : VNode} (h : Chained locals (front ++ ⟨tag, span, build⟩ :: behind) w) :
    ∃ wraps v, build locals = .ok v ∧ w = Wrap.fillAll wraps v ∧
      ChainGuards locals tag (Wrap.guards wraps) ∧ ∀ build' v', build' locals = .ok v' →
        Chained locals (front ++ ⟨tag, span, build'⟩ :: behind) (Wrap.fillAll wraps v') := by
  induction front generalizing w with
  | nil =>
    rw [List.nil_append] at h
    cases h with
    | otherwise helse hv =>
      exact ⟨[], w, hv, rfl, ⟨[], none, .inr ⟨helse, rfl⟩, rfl⟩,
        fun build' v' hv' => .otherwise helse hv'⟩
    | @test _ _ test v no hlast htest hv hothers =>
      exact ⟨[.yes test no], v, hv, rfl, ⟨[], some test, .inl htest, rfl⟩,
        fun build' v' hv' => .test hlast htest hv' hothers⟩
  | cons b front ih =>
    rw [List.cons_append] at h
    generalize hall : front ++ ⟨tag, span, build⟩ :: behind = others at h
    cases h with
    | otherwise => simp at hall
    | @test _ _ test yes no hlast htest hyes hothers =>
      rw [← hall] at hothers
      obtain ⟨wraps, v, hv, rfl, ⟨refused, own, hown, hguards⟩, hreplace⟩ := ih hothers
      refine ⟨.no test yes :: wraps, v, hv, rfl, ⟨test :: refused, own, hown, ?_⟩, ?_⟩
      · exact congrArg (Guard.fails test :: ·) hguards
      · intro build' v' hv'
        exact .test (by simp) htest hyes (hreplace build' v' hv')

theorem chainAround_eq_ok {front behind : List Branch} {b : Branch} {w : VNode} :
    (chainAround front b behind).build locals = .ok w ↔
      ∃ v, Chained locals (front ++ b :: behind) v ∧ w = .chain v := by
  cases front with
  | nil => exact buildChain_eq_ok
  | cons first front => exact buildChain_eq_ok

/-- An element stands beside the nodes of its siblings, under the conditions of its chain. -/
theorem exists_carries_siblings (i : ι) (children : ι → List Node) {pre post : List Sibling}
    {vs : List VNode}
    (h : buildSiblings locals (pre ++ Sibling.ofNode (.element tag (children i) span) :: post) =
      .ok vs) :
    ∃ before wraps behind,
      Carries i (fun j => buildElement tag span (Sibling.ofNodes (children j)) locals)
        (fun j => buildSiblings locals
          (pre ++ Sibling.ofNode (.element tag (children j) span) :: post))
        (fun v => before ++ Wrap.fillAll wraps v :: behind) ∧
      ChainGuards locals tag (Wrap.guards wraps) := by
  obtain ⟨groupsBefore, seat, groupsBehind, hseat, hgroups⟩ := seated tag span post pre
  let build := fun j => buildElement tag span (Sibling.ofNodes (children j))
  have hgroups : ∀ j, groups (pre ++ Sibling.ofNode (.element tag (children j) span) :: post) =
      groupsBefore ++ seat tag (build j) :: groupsBehind :=
    fun j => hgroups tag (build j) _ (.refl tag)
  simp only [buildSiblings_eq_ok, hgroups] at h
  obtain ⟨before, rest, hbefore, hrest, -⟩ := forall₂_append_left.1 h
  rcases hrest with _ | ⟨hown, hbehind⟩
  rename_i w behind
  -- the other groups are built as before, whatever the element is built as
  have hcarries : ∀ wraps, (∃ v, build i locals = .ok v) →
      (∀ j v, build j locals = .ok v →
        (seat tag (build j)).build locals = .ok (Wrap.fillAll wraps v)) →
      Carries i (fun j => build j locals)
        (fun j => buildSiblings locals
          (pre ++ Sibling.ofNode (.element tag (children j) span) :: post))
        (fun v => before ++ Wrap.fillAll wraps v :: behind) := by
    intro wraps hv hreplace
    refine ⟨hv, fun {j v} hj => ?_⟩
    rw [buildSiblings_eq_ok, hgroups]
    exact forall₂_append_left.2 ⟨before, _, hbefore, .cons (hreplace j v hj) hbehind, rfl⟩
  cases hseat with
  | single hif halternative =>
    refine ⟨before, [], behind, hcarries [] ⟨w, hown⟩ fun _ _ hj => hj, [], none, .inl ?_, rfl⟩
    -- an element by itself has no condition
    simp only [isAlternative, Bool.or_eq_false_iff, Tag.has, Option.isSome_eq_false_iff,
      Option.isNone_iff_eq_none] at hif halternative
    rw [testOf, hif, halternative.1]
    rfl
  | stray => cases hown
  | chain front others =>
    obtain ⟨c, hchained, rfl⟩ := chainAround_eq_ok.1 hown
    obtain ⟨wraps, v, hv, rfl, hguards, hreplace⟩ := hchained.exists_wraps
    refine ⟨before, .chain :: wraps, behind, hcarries (.chain :: wraps) ⟨v, hv⟩ ?_, hguards⟩
    intro j v' hj
    exact chainAround_eq_ok.2 ⟨_, hreplace (build j) v' hj, rfl⟩

/-- An element stands inside of its loop. -/
theorem exists_carries_element (i : ι) (children : ι → List Node) {v : VNode}
    (h : buildElement tag span (Sibling.ofNodes (children i)) locals = .ok v) :
    refuseDynamic tag.items = .ok () ∧ ∃ loop, loopOf locals tag = .ok loop ∧
      Carries i
        (fun j => buildPlain tag span (Sibling.ofNodes (children j)) (loopNames tag ++ locals))
        (fun j => buildElement tag span (Sibling.ofNodes (children j)) locals)
        (Wrap.fillAll (Wrap.ofLoop loop)) := by
  obtain ⟨hdynamic, loop, item, hloop, hitem, rfl⟩ := buildElement_eq_ok.1 h
  refine ⟨hdynamic, loop, hloop, ⟨item, hitem⟩, fun {j item'} hj => ?_⟩
  rw [← Wrap.repeated_eq]
  exact buildElement_eq_ok.2 ⟨hdynamic, loop, item', hloop, hj, rfl⟩

end Siblings

end ModuleServer.Render
