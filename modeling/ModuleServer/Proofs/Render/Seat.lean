import ModuleServer.Proofs.Render.Built
import ModuleServer.Proofs.Text.Run

/-!
# The place of an element among its siblings

How siblings are grouped around one of them depends on what that one tells its parent and not on how
it is built (`seated`). So its group is the same whatever it is built as: the element stands by
itself, is a member of a conditional chain, or is an alternative without a condition.
-/

namespace ModuleServer.Render

open Text Template
open List (Forall₂)

/-- Two tags that tell the element's parent the same: what kind of element it is, and how it is
tied to its siblings. -/
structure SameView (tag tag' : Tag) : Prop where
  kind : tag'.kind = tag.kind
  dynamic : refuseDynamic tag'.items = refuseDynamic tag.items
  directive : ∀ name ∈ structuralDirectives, tag'.directive? name = tag.directive? name

namespace SameView

theorem refl (tag : Tag) : SameView tag tag :=
  ⟨rfl, rfl, fun _ _ => rfl⟩

variable {tag tag' : Tag} (h : SameView tag tag')

include h

theorem has {name : Text} (hname : name ∈ structuralDirectives) : tag'.has name = tag.has name := by
  rw [Tag.has, h.directive name hname, Tag.has]

theorem isAlternative : isAlternative tag' = isAlternative tag := by
  rw [Render.isAlternative, Render.isAlternative, h.has (by decide), h.has (by decide)]

end SameView

/-- The chain of the members before one of them, that member, and those behind it. -/
def chainAround (front : List Branch) (b : Branch) (behind : List Branch) : Group :=
  match front with
  | [] => .chain b behind
  | first :: front => .chain first (front ++ b :: behind)

/-- The group of an element of a tag, as a function of the tag and of how the element is built. -/
inductive Seat (tag : Tag) (span : Span) : (Tag → (List Text → Built VNode) → Group) → Prop where
  /-- The element stands by itself. -/
  | single (hif : tag.has "if".toList = false) (halternative : isAlternative tag = false) :
      Seat tag span fun _ build => .single build
  /-- The element is an alternative without a condition. -/
  | stray : Seat tag span fun _ _ => .stray span
  /-- The element is a member of a chain. -/
  | chain (front behind : List Branch) :
      Seat tag span fun tag build => chainAround front ⟨tag, span, build⟩ behind

section Split

variable (tag : Tag) (span : Span) (post : List Sibling)

/-- Behind a condition, an element is one of the alternatives, or it stands behind them. -/
theorem alternatives_split (pre back : List Sibling) (hlength : pre.length ≤ back.length) :
    (∃ front others behind, ∀ tag' build content, SameView tag tag' →
      alternatives (back ++ .element tag' span build content :: post)
          (pre ++ .element tag' span build content :: post) =
        (front ++ ⟨tag', span, build⟩ :: others, behind)) ∨
    ∃ others pre', pre'.length ≤ back.length ∧ ∀ tag' build content, SameView tag tag' →
      alternatives (back ++ .element tag' span build content :: post)
          (pre ++ .element tag' span build content :: post) =
        (others, pre' ++ .element tag' span build content :: post) := by
  induction pre generalizing back with
  | nil =>
    -- the element is the next sibling that is looked at
    by_cases helseIf : tag.has "else-if".toList
    · refine .inl ⟨[], (alternatives post post).1, (alternatives post post).2, ?_⟩
      intro tag' build content hview
      rw [List.nil_append, alternatives, hview.has (by decide), if_pos helseIf]
      rfl
    by_cases helse : tag.has "else".toList
    · refine .inl ⟨[], [], post, ?_⟩
      intro tag' build content hview
      rw [List.nil_append, alternatives, hview.has (by decide), hview.has (by decide),
        if_neg helseIf, if_pos helse]
      rfl
    · refine .inr ⟨[], back, Nat.le_refl _, ?_⟩
      intro tag' build content hview
      rw [List.nil_append, alternatives, hview.has (by decide), hview.has (by decide),
        if_neg helseIf, if_neg helse]
  | cons sibling pre ih =>
    have hshorter : pre.length ≤ back.length := by
      simp only [List.length_cons] at hlength
      omega
    cases sibling with
    | element first place build₀ content₀ =>
      by_cases helseIf : first.has "else-if".toList
      · -- a further condition, behind which the chain goes on
        rcases ih pre (Nat.le_refl _) with ⟨front, others, behind, h⟩ | ⟨others, pre', hpre', h⟩
        · refine .inl ⟨⟨first, place, build₀⟩ :: front, others, behind, ?_⟩
          intro tag' build content hview
          rw [List.cons_append, alternatives, if_pos helseIf, h tag' build content hview]
          rfl
        · refine .inr ⟨⟨first, place, build₀⟩ :: others, pre', by omega, ?_⟩
          intro tag' build content hview
          rw [List.cons_append, alternatives, if_pos helseIf, h tag' build content hview]
      by_cases helse : first.has "else".toList
      · refine .inr ⟨[⟨first, place, build₀⟩], pre, hshorter, ?_⟩
        intro tag' build content hview
        rw [List.cons_append, alternatives, if_neg helseIf, if_pos helse]
      · refine .inr ⟨[], back, Nat.le_refl _, ?_⟩
        intro tag' build content hview
        rw [List.cons_append, alternatives, if_neg helseIf, if_neg helse]
    | text content₀ =>
      by_cases hblank : (Sibling.text content₀).isBlank
      · -- white space, which belongs to the chain if an alternative follows
        have hskip : ∀ back rest, alternatives back (.text content₀ :: rest) =
            alternatives back rest := by
          intro back rest
          rw [alternatives, if_pos hblank]
          simp
        rcases ih back hshorter with ⟨front, others, behind, h⟩ | ⟨others, pre', hpre', h⟩
        · refine .inl ⟨front, others, behind, ?_⟩
          intro tag' build content hview
          rw [List.cons_append, hskip, h tag' build content hview]
        · refine .inr ⟨others, pre', hpre', ?_⟩
          intro tag' build content hview
          rw [List.cons_append, hskip, h tag' build content hview]
      · refine .inr ⟨[], back, Nat.le_refl _, ?_⟩
        intro tag' build content hview
        rw [List.cons_append, alternatives, if_neg hblank]
        simp
    | interpolation exp =>
      have hblank : ¬(Sibling.interpolation exp).isBlank := Bool.false_ne_true
      refine .inr ⟨[], back, Nat.le_refl _, ?_⟩
      intro tag' build content hview
      rw [List.cons_append, alternatives, if_neg hblank]
      simp

/-- Texts and interpolations up to the next element are one group. -/
theorem groups_run {sibling : Sibling} (h : sibling.isElement = false) (rest : List Sibling) :
    groups (sibling :: rest) = .run (sibling :: rest.takeWhile fun s => !s.isElement) ::
      groups (rest.dropWhile fun s => !s.isElement) := by
  cases sibling with
  | element => exact absurd h.symm Bool.false_ne_true
  | text content =>
    rw [groups]
    simp
  | interpolation exp =>
    rw [groups]
    simp

/-- The groups of siblings around one element: its own group, the groups before, and those behind,
are the same however the element is built. -/
def Seated (pre : List Sibling) : Prop :=
  ∃ before seat behind, Seat tag span seat ∧ ∀ tag' build content, SameView tag tag' →
    groups (pre ++ .element tag' span build content :: post) =
      before ++ seat tag' build :: behind

variable {tag span post}

/-- A group that is complete before the element comes before its own. -/
theorem Seated.behind_group {pre pre' : List Sibling} (h : Seated tag span post pre') (g : Group)
    (hgroups : ∀ tag' build content, SameView tag tag' →
      groups (pre ++ .element tag' span build content :: post) =
        g :: groups (pre' ++ .element tag' span build content :: post)) :
    Seated tag span post pre := by
  obtain ⟨before, seat, behind, hseat, hrest⟩ := h
  refine ⟨g :: before, seat, behind, hseat, ?_⟩
  intro tag' build content hview
  rw [hgroups tag' build content hview, hrest tag' build content hview]
  rfl

theorem seated_nil : Seated tag span post [] := by
  by_cases hif : tag.has "if".toList
  · refine ⟨[], _, groups (alternatives post post).2, .chain [] (alternatives post post).1, ?_⟩
    intro tag' build content hview
    rw [List.nil_append, groups, hview.has (by decide), if_pos hif]
    rfl
  by_cases halternative : isAlternative tag
  · refine ⟨[], _, groups post, .stray, ?_⟩
    intro tag' build content hview
    rw [List.nil_append, groups, hview.has (by decide), hview.isAlternative, if_neg hif,
      if_pos halternative]
    rfl
  · refine ⟨[], _, groups post,
      .single (Bool.eq_false_iff.2 hif) (Bool.eq_false_iff.2 halternative), ?_⟩
    intro tag' build content hview
    rw [List.nil_append, groups, hview.has (by decide), hview.isAlternative, if_neg hif,
      if_neg halternative]
    rfl

theorem seated (tag : Tag) (span : Span) (post pre : List Sibling) : Seated tag span post pre := by
  -- a chain skips siblings, so the induction is on the number of siblings before the element
  induction hn : pre.length using Nat.strongRecOn generalizing pre with
  | _ n ih =>
    cases pre with
    | nil => exact seated_nil
    | cons sibling pre =>
      have hpre : pre.length < n := by
        rw [← hn, List.length_cons]
        omega
      -- a run of texts ends at the element at the latest
      have hrun : ∀ sibling : Sibling, sibling.isElement = false →
          Seated tag span post (sibling :: pre) := by
        intro sibling hsibling
        have hdrop : (pre.dropWhile fun s => !s.isElement).length < n :=
          Nat.lt_of_le_of_lt (List.dropWhile_suffix _).length_le hpre
        refine (ih _ hdrop _ rfl).behind_group
          (.run (sibling :: pre.takeWhile fun s => !s.isElement)) ?_
        intro tag' build content _
        rw [List.cons_append, groups_run hsibling, takeWhile_stop _ _ rfl,
          dropWhile_stop _ _ rfl]
      cases sibling with
      | element first place build₀ content₀ =>
        by_cases hif : first.has "if".toList
        · rcases alternatives_split tag span post pre pre (Nat.le_refl _) with
            ⟨front, others, rest, h⟩ | ⟨others, pre', hpre', h⟩
          · refine ⟨[], _, groups rest, .chain (⟨first, place, build₀⟩ :: front) others, ?_⟩
            intro tag' build content hview
            rw [List.cons_append, groups, if_pos hif, h tag' build content hview]
            rfl
          · refine (ih pre'.length (by omega) pre' rfl).behind_group
              (.chain ⟨first, place, build₀⟩ others) ?_
            intro tag' build content hview
            rw [List.cons_append, groups, if_pos hif, h tag' build content hview]
        by_cases halternative : isAlternative first
        · refine (ih pre.length hpre pre rfl).behind_group (.stray place) ?_
          intro tag' build content _
          rw [List.cons_append, groups, if_neg hif, if_pos halternative]
        · refine (ih pre.length hpre pre rfl).behind_group (.single build₀) ?_
          intro tag' build content _
          rw [List.cons_append, groups, if_neg hif, if_neg halternative]
      | text content₀ => exact hrun (.text content₀) rfl
      | interpolation exp => exact hrun (.interpolation exp) rfl

end Split

/-! ## All siblings -/

/-- What holds of all siblings that a group is made of. -/
def Group.All (Q : Sibling → Prop) : Group → Prop
  | .chain first others =>
    ∀ b ∈ first :: others, ∃ content, Q (.element b.tag b.span b.build content)
  | .stray span => ∃ tag build content, Q (.element tag span build content)
  | .single build => ∃ tag span content, Q (.element tag span build content)
  | .run siblings => ∀ s ∈ siblings, Q s

theorem alternatives_forall {Q : Sibling → Prop} {back siblings : List Sibling}
    (hback : ∀ s ∈ back, Q s) (h : ∀ s ∈ siblings, Q s) :
    (∀ b ∈ (alternatives back siblings).1, ∃ content, Q (.element b.tag b.span b.build content)) ∧
      ∀ s ∈ (alternatives back siblings).2, Q s := by
  fun_induction alternatives back siblings with
  | case1 => exact ⟨List.forall_mem_nil _, hback⟩
  | case2 back tag span build content rest _ others behind heq ih =>
    obtain ⟨hfirst, hrest⟩ := List.forall_mem_cons.1 h
    obtain ⟨hothers, hbehind⟩ := ih hrest hrest
    rw [heq] at hothers hbehind
    exact ⟨List.forall_mem_cons.2 ⟨⟨content, hfirst⟩, hothers⟩, hbehind⟩
  | case3 back tag span build content rest _ _ =>
    obtain ⟨hfirst, hrest⟩ := List.forall_mem_cons.1 h
    exact ⟨List.forall_mem_cons.2 ⟨⟨content, hfirst⟩, List.forall_mem_nil _⟩, hrest⟩
  | case4 => exact ⟨List.forall_mem_nil _, hback⟩
  | case5 back sibling rest _ _ ih => exact ih hback (List.forall_mem_cons.1 h).2
  | case6 => exact ⟨List.forall_mem_nil _, hback⟩

/-- What holds of all siblings holds of those that each group is made of. -/
theorem groups_forall {Q : Sibling → Prop} {siblings : List Sibling} (h : ∀ s ∈ siblings, Q s) :
    ∀ g ∈ groups siblings, g.All Q := by
  fun_induction groups siblings with
  | case1 => exact List.forall_mem_nil _
  | case2 tag span build content rest _ ih =>
    obtain ⟨hfirst, hrest⟩ := List.forall_mem_cons.1 h
    obtain ⟨hothers, hbehind⟩ := alternatives_forall hrest hrest
    exact List.forall_mem_cons.2
      ⟨List.forall_mem_cons.2 ⟨⟨content, hfirst⟩, hothers⟩, ih hbehind⟩
  | case3 tag span build content rest _ _ ih =>
    obtain ⟨hfirst, hrest⟩ := List.forall_mem_cons.1 h
    exact List.forall_mem_cons.2 ⟨⟨tag, build, content, hfirst⟩, ih hrest⟩
  | case4 tag span build content rest _ _ ih =>
    obtain ⟨hfirst, hrest⟩ := List.forall_mem_cons.1 h
    exact List.forall_mem_cons.2 ⟨⟨tag, span, content, hfirst⟩, ih hrest⟩
  | case5 sibling rest _ ih =>
    obtain ⟨hfirst, hrest⟩ := List.forall_mem_cons.1 h
    refine List.forall_mem_cons.2
      ⟨List.forall_mem_cons.2 ⟨hfirst, fun s hs => ?_⟩, ih fun s hs => ?_⟩
    · exact hrest s ((List.takeWhile_prefix _).mem hs)
    · exact hrest s ((List.dropWhile_suffix _).mem hs)

end ModuleServer.Render
