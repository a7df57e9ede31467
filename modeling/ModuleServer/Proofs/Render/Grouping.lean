import Mathlib.Data.List.Forall2
import ModuleServer.Proofs.Render.Contribution

/-!
# Siblings beside resolved siblings

A sibling and the sibling of the resolved tree are alike (`Alike`) if the one is built where some
names are bound as the other is by itself. Siblings that are alike one by one are grouped alike
(`groups_alike`), so they become the same nodes (`buildSiblings_alike`).

A template with a slot is never built itself, only its content is; it may stand right inside a
component and nowhere else.
-/

namespace ModuleServer.Render.Lexical

open Text
open List (Forall₂)

/-- A sibling beside the sibling of the resolved tree. -/
inductive Alike (inComponent : Bool) (bound : List Text) : Sibling → Sibling → Prop where
  | element {tag : Tag} {span build content build' content'} (hplain : tag.isPlain)
      (h : build bound = build' []) :
      Alike inComponent bound (.element tag.plain span build content)
        (.element (tag.resolve bound).plain span build' content')
  | slot {tag : Tag} {span build content build' content'} (hin : inComponent)
      (hslot : tag.isSlotTemplate)
      (h : content (tag.slotNames ++ bound) = content' []) :
      Alike inComponent bound (.element tag.plain span build content)
        (.element (tag.resolve bound).plain span build' content')
  | text (content : Text) : Alike inComponent bound (.text content) (.text content)
  | interpolation (path : Path) :
      Alike inComponent bound (.interpolation path.text)
        (.interpolation (path.resolve bound).text)

/-- A member of a chain beside the member of the resolved tree. -/
structure AlikeBranch (bound : List Text) (b b' : Branch) : Prop where
  tag : ∃ tag : Tag, b.tag = tag.plain ∧ b'.tag = (tag.resolve bound).plain
  span : b'.span = b.span
  build : b.build bound = b'.build []

/-- A group beside the group of the resolved tree. -/
inductive AlikeGroup (bound : List Text) : Group → Group → Prop where
  | chain {first others first' others'} (hfirst : AlikeBranch bound first first')
      (hothers : Forall₂ (AlikeBranch bound) others others') :
      AlikeGroup bound (.chain first others) (.chain first' others')
  | stray (span : Span) : AlikeGroup bound (.stray span) (.stray span)
  | single {build build'} (h : build bound = build' []) :
      AlikeGroup bound (.single build) (.single build')
  | run {siblings siblings'} (h : Forall₂ (Alike false bound) siblings siblings') :
      AlikeGroup bound (.run siblings) (.run siblings')

section Groups

variable {inComponent : Bool} {bound : List Text} {s s' : Sibling}
  {siblings siblings' back back' : List Sibling}

theorem Alike.isBlank_eq (h : Alike inComponent bound s s') : s'.isBlank = s.isBlank := by
  cases h <;> rfl

theorem Alike.isElement_eq (h : Alike inComponent bound s s') : s'.isElement = s.isElement := by
  cases h <;> rfl

/-- The alternatives of siblings that are alike are alike, and so are the siblings behind them. -/
theorem alternatives_alike (hback : Forall₂ (Alike false bound) back back')
    (h : Forall₂ (Alike false bound) siblings siblings') :
    Forall₂ (AlikeBranch bound) (alternatives back siblings).1 (alternatives back' siblings').1 ∧
      Forall₂ (Alike false bound) (alternatives back siblings).2
        (alternatives back' siblings').2 := by
  fun_induction alternatives back siblings generalizing back' siblings' with
  | case1 back =>
    cases h
    exact ⟨.nil, hback⟩
  | case2 back tag span build content rest hname others behind heq ih =>
    -- a further condition: the chain goes on behind it
    rcases h with _ | ⟨hs, hrest⟩
    cases hs with
    | element hplain hbuild =>
      rename_i tag _ _
      rw [alternatives, tag.has_resolve, if_pos hname]
      obtain ⟨hothers, hbehind⟩ := ih hrest hrest
      rw [heq] at hothers hbehind
      exact ⟨.cons ⟨⟨tag, rfl, rfl⟩, rfl, hbuild⟩ hothers, hbehind⟩
    | slot hin => exact absurd hin (by decide)
  | case3 back tag span build content rest hnot hname =>
    -- the last alternative
    rcases h with _ | ⟨hs, hrest⟩
    cases hs with
    | element hplain hbuild =>
      rename_i tag _ _
      rw [alternatives, tag.has_resolve, tag.has_resolve, if_neg hnot, if_pos hname]
      exact ⟨.cons ⟨⟨tag, rfl, rfl⟩, rfl, hbuild⟩ .nil, hrest⟩
    | slot hin => exact absurd hin (by decide)
  | case4 back tag span build content rest hnot hnot' =>
    -- an element that is no alternative is left for later
    rcases h with _ | ⟨hs, hrest⟩
    cases hs with
    | element hplain hbuild =>
      rename_i tag _ _
      rw [alternatives, tag.has_resolve, tag.has_resolve, if_neg hnot, if_neg hnot']
      exact ⟨.nil, hback⟩
    | slot hin => exact absurd hin (by decide)
  | case5 back sibling rest helement hblank ih =>
    -- white space, which the chain swallows only if an alternative follows
    rcases h with _ | ⟨hs, hrest⟩
    cases hs with
    | element => exact (helement _ _ _ _ rfl).elim
    | slot => exact (helement _ _ _ _ rfl).elim
    | text content =>
      rw [alternatives, if_pos hblank]
      · exact ih hback hrest
      · exact helement
    | interpolation path => exact absurd hblank Bool.false_ne_true
  | case6 back sibling rest helement hblank =>
    rcases h with _ | ⟨hs, hrest⟩
    cases hs with
    | element => exact (helement _ _ _ _ rfl).elim
    | slot => exact (helement _ _ _ _ rfl).elim
    | text content =>
      rw [alternatives, if_neg hblank]
      · exact ⟨.nil, hback⟩
      · exact helement
    | interpolation path =>
      exact ⟨.nil, hback⟩

/-- Siblings that are alike begin with texts that are alike. -/
theorem span_alike (h : Forall₂ (Alike false bound) siblings siblings') :
    Forall₂ (Alike false bound) (siblings.takeWhile fun s => !s.isElement)
        (siblings'.takeWhile fun s => !s.isElement) ∧
      Forall₂ (Alike false bound) (siblings.dropWhile fun s => !s.isElement)
        (siblings'.dropWhile fun s => !s.isElement) := by
  induction h with
  | nil => exact ⟨.nil, .nil⟩
  | @cons s s' rest rest' hs hrest ih =>
    simp only [List.takeWhile_cons, List.dropWhile_cons, hs.isElement_eq]
    cases s.isElement with
    | true => exact ⟨.nil, .cons hs hrest⟩
    | false => exact ⟨.cons hs ih.1, ih.2⟩

/-- Siblings that are alike are grouped alike. -/
theorem groups_alike (h : Forall₂ (Alike false bound) siblings siblings') :
    Forall₂ (AlikeGroup bound) (groups siblings) (groups siblings') := by
  fun_induction groups siblings generalizing siblings' with
  | case1 =>
    cases h
    rw [groups]
    exact .nil
  | case2 tag span build content rest hname ih =>
    -- a chain
    rcases h with _ | ⟨hs, hrest⟩
    cases hs with
    | element hplain hbuild =>
      rename_i tag _ _
      obtain ⟨hothers, hbehind⟩ := alternatives_alike hrest hrest
      rw [groups, tag.has_resolve, if_pos hname]
      exact .cons (.chain ⟨⟨tag, rfl, rfl⟩, rfl, hbuild⟩ hothers) (ih hbehind)
    | slot hin => exact absurd hin (by decide)
  | case3 tag span build content rest hnot hname ih =>
    -- an alternative without its condition
    rcases h with _ | ⟨hs, hrest⟩
    cases hs with
    | element hplain hbuild =>
      rename_i tag _ _
      rw [groups, tag.has_resolve, if_neg hnot, if_pos]
      · exact .cons (.stray span) (ih hrest)
      · simpa only [isAlternative, tag.has_resolve] using hname
    | slot hin => exact absurd hin (by decide)
  | case4 tag span build content rest hnot hnot' ih =>
    rcases h with _ | ⟨hs, hrest⟩
    cases hs with
    | element hplain hbuild =>
      rename_i tag _ _
      rw [groups, tag.has_resolve, if_neg hnot, if_neg]
      · exact .cons (.single hbuild) (ih hrest)
      · simpa only [isAlternative, tag.has_resolve] using hnot'
    | slot hin => exact absurd hin (by decide)
  | case5 sibling rest helement ih =>
    -- texts and interpolations up to the next element
    rcases h with _ | ⟨hs, hrest⟩
    obtain ⟨hrun, hbehind⟩ := span_alike hrest
    cases hs with
    | element => exact (helement _ _ _ _ rfl).elim
    | slot => exact (helement _ _ _ _ rfl).elim
    | text content =>
      rw [groups]
      · exact .cons (.run (.cons (.text content) hrun)) (ih hbehind)
      · exact helement
    | interpolation path =>
      rw [groups]
      · exact .cons (.run (.cons (.interpolation path) hrun)) (ih hbehind)
      · intro tag span build content h
        cases h

/-! ## Nodes of groups -/

/-- Each of two lists is gone through with the same results. -/
theorem mapM_forall₂ {α β γ ε : Type} {f : α → Except ε γ} {g : β → Except ε γ} {as : List α}
    {bs : List β} (h : Forall₂ (fun a b => f a = g b) as bs) : as.mapM f = bs.mapM g := by
  induction h with
  | nil => rfl
  | cons hab _ ih => rw [List.mapM_cons, List.mapM_cons, hab, ih]

theorem textRun_alike (h : Forall₂ (Alike inComponent bound) siblings siblings') :
    textRun bound siblings = .ok (Verbatim.textRun siblings') := by
  induction h with
  | nil => rfl
  | cons hs _ ih =>
    rw [textRun, Verbatim.textRun] at ih ⊢
    cases hs with
    | element => exact ih
    | slot => exact ih
    | text content =>
      simp only [List.filterMap_cons, Sibling.part?, Verbatim.part?, List.mapM_cons, ih]
      rfl
    | interpolation path =>
      simp only [List.filterMap_cons, Sibling.part?, Verbatim.part?, List.mapM_cons, ih,
        inContext_path]
      rfl

theorem Tag.name_of_directive? {tag : Tag} {name : Text} {d : Directive}
    (h : tag.directive? name = some d) : d.action.name = name := by
  obtain ⟨item, -, hitem⟩ := List.exists_of_findSome?_eq_some h
  rcases item with a | d
  · exact absurd hitem (by simp [Item.named?])
  · simp only [Item.named?, Option.ite_none_right_eq_some, Option.some.injEq] at hitem
    rw [← hitem.2]
    exact hitem.1

/-- A directive with a path that a tag has is one that the resolved tag has with its path resolved,
if it is a condition outside of the tag's loop. -/
theorem Tag.directive?_agree (tag : Tag) (bound : List Text) (name : Text)
    (hname : name ∉ ["for".toList, "slot".toList, "bind".toList]) :
    (tag.plain.directive? name = none ∧ (tag.resolve bound).plain.directive? name = none) ∨
      ∃ d d', tag.plain.directive? name = some d ∧
        (tag.resolve bound).plain.directive? name = some d' ∧
        Agree (if isCondition name then bound else tag.loopNames ++ bound) d d' := by
  rw [Tag.directive?_plain, Tag.directive?_plain, Tag.directive?_resolve]
  cases hd : tag.directive? name with
  | none => exact .inl ⟨rfl, rfl⟩
  | some d =>
    obtain ⟨action, arg, modifiers, span⟩ := d
    obtain rfl : action.name = name := Tag.name_of_directive? hd
    cases action with
    | other name path known =>
      exact .inr ⟨_, _, rfl, rfl, agree_other bound _ name path known arg modifiers span⟩
    | _ => exact absurd (by simp [Action.name]) hname

/-- The condition of a member of a chain is missing in both, or a path that is resolved. -/
theorem condition_alike {b b' : Branch} (h : AlikeBranch bound b b') :
    (∃ e, condition b = .error e ∧ condition b' = .error e) ∨
      ∃ p : Path, condition b = .ok p.text ∧ condition b' = .ok (p.resolve bound).text := by
  obtain ⟨tag, htag, htag'⟩ := h.tag
  rw [condition, condition, htag, htag', h.span]
  rcases tag.directive?_agree bound "if".toList (by decide) with
    ⟨hif, hif'⟩ | ⟨d, d', hif, hif', hagree⟩
  · rcases tag.directive?_agree bound "else-if".toList (by decide) with
      ⟨helse, helse'⟩ | ⟨d, d', helse, helse', hagree⟩
    · rw [hif, hif', helse, helse']
      exact .inl ⟨_, rfl, rfl⟩
    · rw [hif, hif', helse, helse']
      exact hagree.required_cases
  · rw [hif, hif']
    exact hagree.required_cases

theorem choose_alike {branches branches' : List Branch} (otherwise : VNode)
    (h : Forall₂ (AlikeBranch bound) branches branches') :
    choose bound otherwise branches = Verbatim.choose otherwise branches' := by
  induction h generalizing otherwise with
  | nil => rfl
  | @cons b b' outer outer' hb _ ih =>
    rw [choose, Verbatim.choose, hb.build]
    rcases condition_alike hb with ⟨e, he, he'⟩ | ⟨p, hp, hp'⟩
    · rw [he, he']
      rfl
    · rw [hp, hp']
      cases b'.build [] with
      | error e => rfl
      | ok node =>
        change (inContext bound p.text >>= fun test =>
          choose bound (.choice test node otherwise) outer) = _
        rw [inContext_path]
        exact ih _

/-- Lists that are related one by one end with related items. -/
theorem getLast_forall₂ {α β : Type} {R : α → β → Prop} {as : List α} {bs : List β}
    (h : Forall₂ R as bs) (hne : as ≠ []) (hne' : bs ≠ []) :
    R (as.getLast hne) (bs.getLast hne') := by
  induction h with
  | nil => exact absurd rfl hne
  | cons hab hrest ih =>
    cases hrest with
    | nil => exact hab
    | cons hcd hrest => exact ih (List.cons_ne_nil _ _) (List.cons_ne_nil _ _)

theorem buildChain_alike {first first' : Branch} {others others' : List Branch}
    (h : Forall₂ (AlikeBranch bound) (first :: others) (first' :: others')) :
    buildChain bound first others = Verbatim.buildChain first' others' := by
  have hlast := getLast_forall₂ h (List.cons_ne_nil _ _) (List.cons_ne_nil _ _)
  obtain ⟨tag, htag, htag'⟩ := hlast.tag
  have hchoose := fun otherwise => choose_alike otherwise (List.rel_reverse h)
  have hlength := h.length_eq
  have hfront : Forall₂ (AlikeBranch bound) (first :: others).dropLast.reverse
      (first' :: others').dropLast.reverse := by
    rw [List.dropLast_eq_take, List.dropLast_eq_take, ← hlength]
    exact List.rel_reverse (List.forall₂_take _ h)
  rw [buildChain, Verbatim.buildChain]
  simp only [htag, htag', tag.has_resolve, hlast.build, hchoose,
    fun otherwise => choose_alike otherwise hfront]

theorem AlikeGroup.build {g g' : Group} (h : AlikeGroup bound g g') :
    g.build bound = Verbatim.buildGroup g' := by
  cases h with
  | chain hfirst hothers => exact buildChain_alike (.cons hfirst hothers)
  | stray span => rfl
  | single h => exact h
  | run h =>
    rw [Group.build, textRun_alike h]
    rfl

/-- Siblings that are alike become the same nodes. -/
theorem buildSiblings_alike (h : Forall₂ (Alike false bound) siblings siblings') :
    buildSiblings bound siblings = Verbatim.buildSiblings siblings' :=
  mapM_forall₂ ((groups_alike h).imp fun _ _ => AlikeGroup.build)

end Groups

end ModuleServer.Render.Lexical
