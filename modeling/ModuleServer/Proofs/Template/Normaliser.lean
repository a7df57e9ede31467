import ModuleServer.Proofs.Template.Collapse

/-!
# Condensing is a normaliser

What condensing leaves is condensed: no two texts are neighbours, and outside of preformatted
elements all white space is single spaces, alone only between two siblings (`isSpaced_condense`).
Siblings of that form are left alone, so condensing a second time changes nothing
(`condense_normalises`).
-/

namespace ModuleServer.Template

open Text

/-! ## Texts -/

/-- A collapsed text has no white space but spaces, and never two in a row. -/
theorem isChain_of_isCollapsed {t : Text} (h : isCollapsed t) :
    t.IsChain fun c d => ¬(isWhite c ∧ isWhite d) := by
  induction t with
  | nil => exact .nil
  | cons c t ih =>
    simp only [isCollapsed, Bool.and_eq_true, Bool.or_eq_true, Bool.not_eq_true',
      decide_eq_true_eq] at h
    obtain ⟨hc, ht⟩ := h
    rw [List.isChain_cons]
    refine ⟨?_, ih ht⟩
    rintro d hd ⟨hwhite, hwhite'⟩
    rcases hc with hc | ⟨-, hnext⟩
    · exact absurd hwhite (by simp [hc])
    · -- what follows a space starts with no white space
      obtain ⟨rest, rfl⟩ : ∃ rest, t = d :: rest := List.head?_eq_some_iff.1 hd
      exact absurd (hwhite'.symm.trans hnext) Bool.noConfusion

namespace Node

/-! ## Siblings -/

/-- Siblings other than texts, in order. -/
def solids (nodes : List Node) : List Node :=
  nodes.filter fun node => !node.isText

theorem solids_mergeTexts (nodes : List Node) : solids (mergeTexts nodes) = solids nodes := by
  induction nodes with
  | nil => rfl
  | cons node nodes ih =>
    have hcons : solids (consMerged node (mergeTexts nodes)) =
        solids (node :: mergeTexts nodes) := by
      cases node with
      | element => rfl
      | interpolation => rfl
      | text content span =>
        rcases mergeTexts nodes with _ | ⟨next, rest⟩
        · rfl
        · cases next <;> rfl
    show solids (consMerged node (mergeTexts nodes)) = solids (node :: nodes)
    rw [hcons, solids, solids, List.filter_cons, List.filter_cons, ← solids, ← solids, ih]

theorem solids_condenseText (before after : Option Node) (content : Text) (span : Span) :
    solids (condenseText before after content span) = [] := by
  unfold condenseText
  split
  · split
    · split <;> rfl
    · rfl
  · rfl

theorem solids_condenseFrom (before : Option Node) (nodes : List Node) :
    solids (condenseFrom before nodes) = solids nodes := by
  induction nodes generalizing before with
  | nil => rfl
  | cons node nodes ih =>
    cases node with
    | element => exact congrArg (List.cons _) (ih _)
    | interpolation => exact congrArg (List.cons _) (ih _)
    | text content span =>
      rw [condenseFrom, solids, List.filter_append, ← solids, ← solids, solids_condenseText, ih]
      rfl

/-! ## What condensing leaves -/

/-- Behind a text that has no other text behind it, condensing keeps the next sibling. -/
theorem head?_condenseFrom {before : Option Node} {nodes : List Node}
    (h : ∀ next ∈ nodes.head?, next.isText = false) :
    (condenseFrom before nodes).head? = nodes.head? := by
  rcases nodes with _ | ⟨next, nodes⟩
  · rfl
  · cases next with
    | element => rfl
    | interpolation => rfl
    | text => exact absurd (h _ rfl) (by simp [isText])

/-- Only a text can tell whether there is a sibling before it. -/
theorem isSpaced_of_head {preformatted : Bool} (behind behind' : Bool) {nodes : List Node}
    (hhead : ∀ next ∈ nodes.head?, next.isText = false) (h : isSpaced preformatted behind nodes) :
    isSpaced preformatted behind' nodes := by
  rcases nodes with _ | ⟨next, nodes⟩
  · rfl
  · cases next with
    | element => exact h
    | interpolation => exact h
    | text => exact absurd (hhead _ rfl) (by simp [isText])

/-- What condensing leaves of siblings without texts side by side is condensed. -/
theorem isSpaced_condenseFrom {nodes : List Node} (h : AreApart nodes) :
    ∀ before : Option Node, isSpaced false before.isSome (condenseFrom before nodes) := by
  induction nodes with
  | nil =>
    intro before
    rfl
  | cons node nodes ih =>
    intro before
    obtain ⟨hnext, hrest⟩ := List.isChain_cons.1 h
    cases node with
    | element tag children span => exact ih hrest (some (.element tag children span))
    | interpolation exp span => exact ih hrest (some (.interpolation exp span))
    | text content span =>
      have hsolid : ∀ next ∈ nodes.head?, next.isText = false := by
        intro next hhead
        exact Bool.eq_false_iff.2 fun htext => hnext next hhead ⟨rfl, htext⟩
      have hhead : (condenseFrom (some (.text content span)) nodes).head? = nodes.head? :=
        head?_condenseFrom hsolid
      have hspaced : isSpaced false true (condenseFrom (some (.text content span)) nodes) :=
        ih hrest (some (.text content span))
      have hsolid' : ∀ next ∈ (condenseFrom (some (.text content span)) nodes).head?,
          next.isText = false := by
        rw [hhead]
        exact hsolid
      rw [condenseFrom]
      rcases condenseText_cases before nodes.head? content span with
        hdropped | ⟨kept, hkept, hne, hcollapsed, hplace⟩
      · rw [hdropped, List.nil_append]
        exact isSpaced_of_head true _ hsolid' hspaced
      · have hapart : (condenseFrom (some (.text content span)) nodes).head?.any isText =
            false := by
          rw [hhead]
          cases hnode : nodes.head? with
          | none => rfl
          | some next => exact hsolid next hnode
        have hplaced : !isWhiteOnly kept || (before.isSome &&
            !(condenseFrom (some (.text content span)) nodes).isEmpty) := by
          cases hwhite : isWhiteOnly kept with
          | false => rfl
          | true =>
            obtain ⟨hbefore, hafter⟩ := hplace hwhite
            rw [← hhead] at hafter
            rw [hbefore]
            rcases hcondensed : condenseFrom (some (.text content span)) nodes with _ | ⟨next, rest⟩
            · rw [hcondensed] at hafter
              exact absurd hafter (by simp)
            · rfl
        rw [hkept, List.singleton_append, isSpaced, hapart, hcollapsed, hplaced,
          List.isEmpty_eq_false_iff.2 hne]
        exact hspaced

/-- Outside of preformatted elements, what condensing leaves is condensed. -/
theorem isSpaced_condense (nodes : List Node) : isSpaced false false (condense false nodes) :=
  isSpaced_condenseFrom (areApart_mergeTexts nodes) none

/-! ## What condensed siblings are like -/

theorem isBlank_eq_false_of_head {node : Node} {nodes : List Node}
    (h : isSpaced false false (node :: nodes)) : node.isBlank = false := by
  cases node with
  | element => rfl
  | interpolation => rfl
  | text content span =>
    simp only [isSpaced, Bool.and_eq_true, Bool.not_eq_true', Bool.false_or, Bool.false_and,
      Bool.or_false] at h
    exact h.1.2.2

theorem isBlank_eq_false_of_getLast {behindSibling : Bool} {node : Node} {nodes : List Node}
    (h : isSpaced false behindSibling nodes) (hlast : nodes.getLast? = some node) :
    node.isBlank = false := by
  induction nodes generalizing behindSibling with
  | nil => cases hlast
  | cons first nodes ih =>
    have hrest : isSpaced false true nodes := by
      cases first with
      | element => exact h
      | interpolation => exact h
      | text content span =>
        simp only [isSpaced, Bool.and_eq_true] at h
        exact h.2
    rcases nodes with _ | ⟨next, nodes⟩
    · obtain rfl : first = node := Option.some.inj hlast
      cases first with
      | element => rfl
      | interpolation => rfl
      | text content span =>
        simp only [isSpaced, Bool.and_eq_true, Bool.not_eq_true', Bool.false_or, Bool.or_eq_true,
          List.isEmpty_nil, Bool.not_true, Bool.and_false] at h
        exact h.1.2.2.resolve_right Bool.false_ne_true
    · rw [List.getLast?_cons_cons] at hlast
      exact ih hrest hlast

theorem isCollapsed_of_mem {behindSibling : Bool} {nodes : List Node} {content : Text} {span : Span}
    (h : isSpaced false behindSibling nodes) (hmem : .text content span ∈ nodes) :
    isCollapsed content := by
  induction nodes generalizing behindSibling with
  | nil => cases hmem
  | cons node nodes ih =>
    cases node with
    | element => exact ih h (by simpa using hmem)
    | interpolation => exact ih h (by simpa using hmem)
    | text =>
      simp only [isSpaced, Bool.and_eq_true, Bool.false_or] at h
      rcases List.mem_cons.1 hmem with heq | hmem
      · cases heq
        exact h.1.2.1
      · exact ih h.2 hmem

/-- Condensing is a normaliser. A second time it changes nothing. No two texts are neighbours in
what it leaves, which has every element and every interpolation, as it was and in order; and outside
of preformatted elements white space alone is at neither end, and in no text is there white space
other than spaces, or two white characters in a row. -/
theorem condense_normalises (preformatted : Bool) (nodes : List Node) :
    let condensed := condense preformatted nodes
    condense preformatted condensed = condensed ∧ AreApart condensed ∧
      solids condensed = solids nodes ∧
      (preformatted = false →
        (∀ node, condensed.head? = some node ∨ condensed.getLast? = some node →
          node.isBlank = false) ∧
        ∀ content span, .text content span ∈ condensed →
          (∀ c ∈ content, isWhite c → c = ' ') ∧
            content.IsChain fun c d => ¬(isWhite c ∧ isWhite d)) := by
  intro condensed
  cases preformatted with
  | true =>
    have hapart : AreApart (mergeTexts nodes) := areApart_mergeTexts nodes
    exact ⟨mergeTexts_of_areApart hapart, hapart, solids_mergeTexts nodes, nofun⟩
  | false =>
    have hspaced : isSpaced false false condensed := isSpaced_condense nodes
    have hsolids : solids condensed = solids nodes :=
      (solids_condenseFrom none (mergeTexts nodes)).trans (solids_mergeTexts nodes)
    refine ⟨condense_eq_self hspaced, areApart_of_isSpaced hspaced, hsolids, fun _ => ⟨?_, ?_⟩⟩
    · rintro node (hfirst | hlast)
      · obtain ⟨rest, hrest⟩ := List.head?_eq_some_iff.1 hfirst
        rw [hrest] at hspaced
        exact isBlank_eq_false_of_head hspaced
      · exact isBlank_eq_false_of_getLast hspaced hlast
    · intro content span hmem
      refine ⟨?_, isChain_of_isCollapsed (isCollapsed_of_mem hspaced hmem)⟩
      intro c hc
      -- all texts of the siblings have this in common
      have htext : c ∈ wholeText condensed := by
        obtain ⟨front, back, hsplit⟩ := List.append_of_mem hmem
        rw [hsplit, wholeText_append]
        exact List.mem_append_right _ (List.mem_append_left _ hc)
      exact eq_space_of_mem_condenseFrom c htext

/-- Siblings of all kinds: white space at both ends, two texts side by side, and white space with
and without a line feed between elements. -/
def unkempt : List Node :=
  [.text "\n ".toList ⟨0, 2⟩, .element (plainTag "a".toList) [] ⟨2, 5⟩, .text "\t".toList ⟨5, 6⟩,
    .text " \n".toList ⟨6, 8⟩, .element (plainTag "b".toList) [] ⟨8, 11⟩,
    .text "x \u00a0 ".toList ⟨11, 16⟩, .text "\ty".toList ⟨16, 18⟩,
    .interpolation "z".toList ⟨18, 23⟩, .text "  ".toList ⟨23, 25⟩]

theorem condense_normalises_unkempt :
    let condensed : List Node :=
      [.element (plainTag "a".toList) [] ⟨2, 5⟩, .element (plainTag "b".toList) [] ⟨8, 11⟩,
        .text "x y".toList ⟨11, 18⟩, .interpolation "z".toList ⟨18, 23⟩]
    condense false unkempt = condensed ∧ condense false condensed = condensed ∧
      AreApart condensed ∧ solids condensed = solids unkempt ∧
      (∀ node, condensed.head? = some node ∨ condensed.getLast? = some node →
        node.isBlank = false) ∧
      ∀ c ∈ "x y".toList, isWhite c → c = ' ' := by
  intro condensed
  have hcondensed : condense false unkempt = condensed := by decide +kernel
  obtain ⟨hself, hapart, hsolids, hrest⟩ := condense_normalises false unkempt
  rw [hcondensed] at hself hapart hsolids hrest
  obtain ⟨hends, htexts⟩ := hrest rfl
  exact ⟨hcondensed, hself, hapart, hsolids, hends,
    (htexts "x y".toList ⟨11, 18⟩ (by simp [condensed])).1⟩

end Node

end ModuleServer.Template
