import ModuleServer.Proofs.Render.Place

/-!
# What a tag gives

What the items of a tag have to be for what is read off them: the contributions to its props
(`Contributes`), its listeners, the value of a key, its target, its loop, its condition, the
parameters of its slot, and what is shown inside of its element (`Shows`). There is one statement
for each function that reads a tag, and it says all that the function can give.
-/

namespace ModuleServer.Render

open Text Template
open List (Forall₂)

theorem inContext_eq_ok {locals : List Text} {t e : Text} :
    inContext locals t = .ok e ↔ Expression.prefixNames? locals t = some e := by
  rw [inContext]
  cases Expression.prefixNames? locals t with
  | none => exact ⟨nofun, nofun⟩
  | some e' =>
    constructor
    · intro h
      cases h
      rfl
    · intro h
      cases h
      rfl

/-! ## Contributions -/

/-- The key that a directive binds. -/
def boundKey (arg : Text) (d : Directive) : Text :=
  if d.modifiers.contains "camel".toList then camelize arg else arg

/-- The key of the listener that a directive makes. -/
def heardKey (event : Text) (d : Directive) : Text :=
  listenerKey event ++ (d.modifiers.filter optionModifiers.contains).flatMap capitalize

/-- The modifiers of a directive that are not part of its listener's key. -/
def otherModifiers (d : Directive) : List Text :=
  d.modifiers.filter fun m => !optionModifiers.contains m

/-- What an item contributes to the props of its tag, if anything. The values of some keys are taken
for something else, so that they are skipped. -/
inductive Contributes (locals skipped : List Text) : Item → Option Assignment → Prop where
  | plain (a : Attribute) (hkept : ¬skipped.contains a.name) :
    Contributes locals skipped (.attribute a) (some (.set a.name (.literal (a.value.getD []))))
  | bind {d : Directive} {arg e : Text} (hname : d.name = "bind".toList) (harg : d.arg = some arg)
    (hkept : ¬skipped.contains arg) (he : inContext locals (d.exp.getD (camelize arg)) = .ok e) :
    Contributes locals skipped (.directive d) (some (.set (boundKey arg d) (.expression e)))
  | spread {d : Directive} {exp e : Text} (hname : d.name = "bind".toList) (harg : d.arg = none)
    (hexp : d.exp = some exp) (he : inContext locals exp = .ok e) :
    Contributes locals skipped (.directive d) (some (.spread e))
  | listener {d : Directive} {event : Text} {reaction : Reaction} (hname : d.name = "on".toList)
    (harg : d.arg = some event) (hreact : react locals d.exp = .ok reaction) :
    Contributes locals skipped (.directive d) (some (.append (heardKey event d)
      (.listener reaction ((otherModifiers d).filter guardModifiers.contains)
        ((otherModifiers d).filter fun m => !guardModifiers.contains m))))
  | markup {d : Directive} {exp e : Text} (hname : d.name = "html".toList)
    (hexp : d.exp = some exp) (he : inContext locals exp = .ok e) :
    Contributes locals skipped (.directive d) (some (.append "innerHTML".toList (.expression e)))
  | skippedPlain (a : Attribute) (hskipped : skipped.contains a.name) :
    Contributes locals skipped (.attribute a) none
  | skippedBind {d : Directive} {arg : Text} (hname : d.name = "bind".toList)
    (harg : d.arg = some arg) (hskipped : skipped.contains arg) :
    Contributes locals skipped (.directive d) none
  | structural {d : Directive} (hname : d.name ∈ structuralDirectives) :
    Contributes locals skipped (.directive d) none

section Contributions

variable {locals skipped : List Text}

theorem contributes_of_assignDirective {d : Directive} {found : Option Assignment}
    (h : assignDirective locals skipped d = .ok found) :
    Contributes locals skipped (.directive d) found := by
  rw [assignDirective] at h
  split at h
  · rename_i hname
    cases harg : d.arg with
    | none =>
      rw [harg] at h
      obtain ⟨exp, hexp, h⟩ := bind_eq_ok.1 h
      obtain ⟨e, he, h⟩ := bind_eq_ok.1 h
      cases h
      exact .spread hname harg (required_eq_ok.1 hexp) he
    | some arg =>
      rw [harg] at h
      dsimp only at h
      split at h
      · rename_i hskipped
        cases h
        exact .skippedBind hname harg hskipped
      · rename_i hkept
        obtain ⟨first, hfirst, h⟩ := bind_eq_ok.1 h
        obtain ⟨e, he, hfirst⟩ := bind_eq_ok.1 hfirst
        cases hfirst
        cases h
        exact .bind hname harg hkept he
  split at h
  · rename_i hname
    cases harg : d.arg with
    | none =>
      rw [harg] at h
      cases h
    | some event =>
      rw [harg] at h
      obtain ⟨listener, hlistener, h⟩ := bind_eq_ok.1 h
      obtain ⟨reaction, hreact, hlistener⟩ := bind_eq_ok.1 hlistener
      cases hlistener
      cases h
      exact .listener hname harg hreact
  split at h
  · rename_i hname
    obtain ⟨exp, hexp, h⟩ := bind_eq_ok.1 h
    obtain ⟨e, he, h⟩ := bind_eq_ok.1 h
    cases h
    exact .markup hname (required_eq_ok.1 hexp) he
  split at h
  · rename_i hname
    cases h
    exact .structural (List.contains_iff_mem.1 hname)
  · cases h

theorem contributes_of_assign {item : Item} {found : Option Assignment}
    (h : assign locals skipped item = .ok found) : Contributes locals skipped item found := by
  rcases item with a | d
  · rw [assign] at h
    split at h
    · rename_i hskipped
      cases h
      exact .skippedPlain a hskipped
    · rename_i hkept
      cases h
      exact .plain a hkept
  · exact contributes_of_assignDirective h

variable {items : List Item} {props : List Assignment}

/-- The props are what the items contribute, in order. -/
theorem contributes_of_assignments (h : assignments locals skipped items = .ok props) :
    ∃ found, Forall₂ (Contributes locals skipped) items found ∧
      props = found.flatMap Option.toList := by
  induction items generalizing props with
  | nil =>
    cases h
    exact ⟨[], .nil, rfl⟩
  | cons item items ih =>
    obtain ⟨first, hfirst, h⟩ := bind_eq_ok.1 h
    obtain ⟨others, hothers, h⟩ := bind_eq_ok.1 h
    cases h
    obtain ⟨found, hfound, rfl⟩ := ih hothers
    exact ⟨first :: found, .cons (contributes_of_assign hfirst) hfound, rfl⟩

theorem exists_of_mem_found {found : List (Option Assignment)} {a : Assignment}
    (h : Forall₂ (Contributes locals skipped) items found)
    (ha : a ∈ found.flatMap Option.toList) :
    ∃ item ∈ items, Contributes locals skipped item (some a) := by
  obtain ⟨c, hc, hsome⟩ := List.mem_flatMap.1 ha
  obtain rfl := Option.mem_toList.1 hsome
  exact exists_of_forall₂_mem h hc

/-- Every contribution to the props comes from an item. -/
theorem exists_contributes (h : assignments locals skipped items = .ok props) :
    ∀ a ∈ props, ∃ item ∈ items, Contributes locals skipped item (some a) := by
  obtain ⟨found, hfound, rfl⟩ := contributes_of_assignments h
  exact fun a ha => exists_of_mem_found hfound ha

/-- The contributions stand in the order of the items. -/
theorem pairwise_of_assignments {R : Item → Item → Prop} {S : Assignment → Assignment → Prop}
    (hRS : ∀ {i j a b}, Contributes locals skipped i (some a) →
      Contributes locals skipped j (some b) → R i j → S a b)
    (h : assignments locals skipped items = .ok props) (hitems : items.Pairwise R) :
    props.Pairwise S := by
  obtain ⟨found, hfound, rfl⟩ := contributes_of_assignments h
  clear h
  induction hfound with
  | nil => exact .nil
  | @cons item c items found hfirst hfound ih =>
    obtain ⟨hitem, hrest⟩ := List.pairwise_cons.1 hitems
    cases c with
    | none => exact ih hrest
    | some a =>
      refine .cons (fun b hb => ?_) (ih hrest)
      obtain ⟨other, hother, hcontributes⟩ := exists_of_mem_found hfound hb
      exact hRS hfirst hcontributes (hitem other hother)

end Contributions

/-! ## Listeners -/

/-- What a listener does is nothing, or comes from its expression. -/
theorem react_cases {locals : List Text} {exp : Option Text} {reaction : Reaction}
    (h : react locals exp = .ok reaction) :
    reaction = .nothing ∨ ∃ written bound e, exp = some written ∧
      inContext bound (trim written) = .ok e ∧
        (reaction = .function e ∨ reaction = .evaluate e) := by
  rw [react] at h
  cases exp with
  | none =>
    cases h
    exact .inl rfl
  | some written =>
    rw [Option.map_some] at h
    cases ht : trim written with
    | nil =>
      rw [ht] at h
      cases h
      exact .inl rfl
    | cons c t =>
      rw [ht] at h
      dsimp only at h
      refine .inr ⟨written, ?_⟩
      rw [ht]
      split at h
      · obtain ⟨e, he, rfl⟩ := map_eq_ok.1 h
        exact ⟨_, e, rfl, he, .inl rfl⟩
      · obtain ⟨e, he, rfl⟩ := map_eq_ok.1 h
        exact ⟨_, e, rfl, he, .inr rfl⟩

/-! ## Keys, targets, loops, conditions, slots -/

section Tags

variable {locals : List Text} {items : List Item} {tag : Tag}

/-- The value of a key is that of an attribute, or a bound expression. -/
theorem keyValue?_cases {key valueless : Text} {v : Value}
    (h : keyValue? locals key valueless items = .ok (some v)) :
    (∃ a, .attribute a ∈ items ∧ v = .literal (a.value.getD valueless)) ∨
      ∃ d exp e, .directive d ∈ items ∧ d.name = "bind".toList ∧ d.exp = some exp ∧
        inContext locals exp = .ok e ∧ v = .expression e := by
  induction items with
  | nil => cases h
  | cons item items ih =>
    simp only [List.mem_cons, or_and_right, exists_or]
    rcases item with a | d
    · rw [keyValue?] at h
      split at h
      · cases h
        exact .inl (.inl ⟨a, rfl, rfl⟩)
      · exact (ih h).imp .inr .inr
    · rw [keyValue?] at h
      split at h
      · rename_i hname
        cases hexp : d.exp with
        | none =>
          rw [hexp] at h
          exact (ih h).imp .inr .inr
        | some exp =>
          rw [hexp] at h
          obtain ⟨e, he, hv⟩ := map_eq_ok.1 h
          obtain rfl := Option.some.inj hv
          exact .inr (.inl ⟨d, exp, e, rfl, hname.1, hexp, he, rfl⟩)
      · exact (ih h).imp .inr .inr

/-- What a component is resolved by is its name, or the value that it is given. -/
theorem buildTarget_cases {span : Span} {target : Target}
    (h : buildTarget locals tag span = .ok target) :
    (tag.name ≠ "component".toList ∧ target = .named tag.name) ∨
      ∃ v, keyValue? locals "is".toList [] tag.items = .ok (some v) ∧ target = .dynamic v := by
  rw [buildTarget] at h
  split at h
  · obtain ⟨found, hfound, h⟩ := bind_eq_ok.1 h
    cases found with
    | none => cases h
    | some v =>
      cases h
      exact .inr ⟨v, hfound, rfl⟩
  · rename_i hname
    cases h
    exact .inl ⟨hname, rfl⟩

/-- The loop of a tag is read from the expression of one of its directives. -/
theorem loopOf_cases {source names : Text} (h : loopOf locals tag = .ok (some (source, names))) :
    ∃ d exp written, .directive d ∈ tag.items ∧ d.name = "for".toList ∧ d.exp = some exp ∧
      readLoop? exp = some (names, written) ∧ inContext locals written = .ok source := by
  cases hd : tag.directive? "for".toList with
  | none =>
    rw [loopOf, hd] at h
    cases h
  | some d =>
    obtain ⟨hmem, hname⟩ := mem_of_directive? hd
    obtain ⟨exp, names', written, source', hexp, hread, hsource, heq⟩ := (loopOf_eq_ok hd).1 h
    cases heq
    exact ⟨d, exp, written, hmem, hname, hexp, hread, hsource⟩

/-- The parameters of the slot of a tag are none, or the expression of one of its directives. -/
theorem slotParams_cases (tag : Tag) : slotParams tag = [] ∨
    ∃ d exp, .directive d ∈ tag.items ∧ d.name = "slot".toList ∧ d.exp = some exp ∧
      slotParams tag = trim exp := by
  rw [slotParams]
  cases hd : tag.directive? "slot".toList with
  | none => exact .inl rfl
  | some d =>
    obtain ⟨hmem, hname⟩ := mem_of_directive? hd
    dsimp only
    cases hexp : d.exp with
    | none => exact .inl rfl
    | some exp => exact .inr ⟨d, exp, hmem, hname, hexp, rfl⟩

/-- The condition of a tag is the expression of one of its directives. -/
theorem testOf_cases {test : Text} (h : testOf locals tag = .ok (some test)) :
    ∃ d exp, .directive d ∈ tag.items ∧ (d.name = "if".toList ∨ d.name = "else-if".toList) ∧
      d.exp = some exp ∧ inContext locals exp = .ok test := by
  rw [testOf] at h
  cases hd : (tag.directive? "if".toList).or (tag.directive? "else-if".toList) with
  | none =>
    rw [hd] at h
    cases h
  | some d =>
    rw [hd] at h
    obtain ⟨exp, hexp, h⟩ := bind_eq_ok.1 h
    obtain ⟨e, he, h⟩ := bind_eq_ok.1 h
    cases h
    have hitem : Item.directive d ∈ tag.items ∧
        (d.name = "if".toList ∨ d.name = "else-if".toList) := by
      rcases Option.or_eq_some_iff.1 hd with hif | ⟨-, helseIf⟩
      · exact (mem_of_directive? hif).imp_right .inl
      · exact (mem_of_directive? helseIf).imp_right .inr
    exact ⟨d, exp, hitem.1, hitem.2, required_eq_ok.1 hexp, he⟩

/-! ## Contents -/

/-- What is shown inside of a native element: the text that a directive gives it, nothing, or its
children if they are drawn. -/
inductive Shows (locals : List Text) (tag : Tag) (children : List Sibling) : Content → Prop where
  | given {d : Directive} {exp e : Text} (hd : tag.directive? "text".toList = some d)
    (hexp : d.exp = some exp) (he : inContext locals exp = .ok e)
    (hdraws : drawsChildren tag = false) : Shows locals tag children (.text [.shown e])
  | nothing (hnone : drawsChildren tag → children = []) : Shows locals tag children .none
  | run {run : List TextPart} (hdraws : drawsChildren tag)
    (hall : children.all fun c => !c.isElement) (hrun : textRun locals children = .ok run) :
    Shows locals tag children (.text run)
  | nodes {vs : List VNode} (hdraws : drawsChildren tag)
    (hvs : buildSiblings locals children = .ok vs) : Shows locals tag children (.nodes vs)

theorem shows_of_buildContent {children : List Sibling} {content : Content}
    (hkind : tag.kind = .native) (h : buildContent locals tag children = .ok content) :
    Shows locals tag children content := by
  have hdraws : drawsChildren tag =
      !((tag.directive? "text".toList).isSome || tag.has "html".toList) := by
    rw [drawsChildren, decide_eq_true hkind, Bool.true_and]
    rfl
  rw [buildContent] at h
  cases hd : tag.directive? "text".toList with
  | some d =>
    rw [hd] at h hdraws
    obtain ⟨exp, hexp, h⟩ := bind_eq_ok.1 h
    obtain ⟨e, he, h⟩ := bind_eq_ok.1 h
    cases h
    exact .given hd (required_eq_ok.1 hexp) he hdraws
  | none =>
    rw [hd, Option.isSome_none, Bool.false_or] at hdraws
    rw [hd] at h
    dsimp only at h
    split at h
    · rename_i hnone
      cases h
      refine .nothing fun hdrawn => ?_
      rw [hdraws, Bool.not_eq_true'] at hdrawn
      rw [hdrawn, Bool.false_or] at hnone
      exact List.isEmpty_iff.1 hnone
    rename_i hsome
    have hdrawn : drawsChildren tag := by
      rw [hdraws, Bool.not_eq_true']
      exact Bool.eq_false_iff.2 (not_or.1 (mt Bool.or_eq_true_iff.2 hsome)).1
    split at h
    · rename_i hall
      obtain ⟨run, hrun, rfl⟩ := map_eq_ok.1 h
      exact .run hdrawn hall hrun
    · obtain ⟨vs, hvs, rfl⟩ := map_eq_ok.1 h
      exact .nodes hdrawn hvs

end Tags

end ModuleServer.Render
