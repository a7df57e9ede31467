import ModuleServer.Proofs.Template.Preformatted

/-!
# Characters that condensing keeps

Condensing is about all white space, and not only about the five characters that a browser
collapses. No other character of a text is lost or added, in any list of siblings, and outside of
elements named `pre` no white space is left but spaces. So the text of siblings is as a browser
shows it exactly if no other white space is written there, as a no-break space would be
(`parse_collapses`).
-/

namespace ModuleServer.Template

open Text
open List (Forall₂)

/-- The white space that a browser collapses: space, tab, line feed, form feed and carriage
return. -/
def isCollapsible (c : Char) : Bool :=
  c = ' ' || c = '\t' || c = '\n' || c = '\x0c' || c = '\x0d'

/-- A text without the characters of a class. -/
def without (p : Char → Bool) (t : Text) : Text :=
  t.filter fun c => !p c

section Without

variable {p q : Char → Bool}

theorem without_append (s t : Text) : without p (s ++ t) = without p s ++ without p t :=
  List.filter_append ..

theorem without_congr {t : Text} (h : ∀ c ∈ t, p c = q c) : without p t = without q t :=
  List.filter_congr fun c hc => congrArg (!·) (h c hc)

/-- Two classes, one within the other, leave the same of a text exactly if it has no character of
the wider one alone. -/
theorem without_eq_iff (hpq : ∀ c, q c → p c) (t : Text) :
    without p t = without q t ↔ ∀ c ∈ t, p c → q c := by
  constructor
  · intro h c hc hp
    by_contra hq
    have hmem : c ∈ without q t := List.mem_filter.2 ⟨hc, by simpa using hq⟩
    rw [← h] at hmem
    have hnot := (List.mem_filter.1 hmem).2
    simp [hp] at hnot
  · intro h
    refine without_congr fun c hc => ?_
    exact Bool.eq_iff_iff.2 ⟨h c hc, hpq c⟩

theorem isWhite_of_isCollapsible {c : Char} (h : isCollapsible c) : isWhite c := by
  simp only [isCollapsible, Bool.or_eq_true, decide_eq_true_eq] at h
  rcases h with (((rfl | rfl) | rfl) | rfl) | rfl <;> decide

end Without

/-! ## One text -/

theorem without_collapseFrom (inRun : Bool) (t : Text) :
    without isWhite (collapseFrom inRun t) = without isWhite t := by
  have hspace : isWhite ' ' := by decide
  induction t generalizing inRun with
  | nil => rfl
  | cons c t ih =>
    rw [collapseFrom]
    by_cases hwhite : isWhite c
    · cases inRun <;> simp_all [without]
    · simp_all [without]

theorem eq_space_of_mem_collapseFrom {inRun : Bool} {t : Text} :
    ∀ c ∈ collapseFrom inRun t, isWhite c → c = ' ' := by
  induction t generalizing inRun with
  | nil => exact List.forall_mem_nil _
  | cons c t ih =>
    rw [collapseFrom]
    by_cases hwhite : isWhite c
    · rw [if_pos hwhite]
      cases inRun with
      | true => exact ih
      | false => exact List.forall_mem_cons.2 ⟨fun _ => rfl, ih⟩
    · rw [if_neg hwhite]
      exact List.forall_mem_cons.2 ⟨fun h => absurd h hwhite, ih⟩

/-! ## The text of siblings -/

namespace Node

/-- The text of siblings, all in one. -/
def wholeText (nodes : List Node) : Text :=
  (texts nodes).flatten

theorem wholeText_append (nodes others : List Node) :
    wholeText (nodes ++ others) = wholeText nodes ++ wholeText others := by
  rw [wholeText, texts_append, List.flatten_append]
  rfl

theorem without_wholeText_condenseText (before after : Option Node) (content : Text) (span : Span) :
    without isWhite (wholeText (condenseText before after content span)) =
      without isWhite content := by
  unfold condenseText
  split
  · rename_i hwhite
    -- nothing or a space is left of white space
    have hnone : without isWhite content = [] := by
      refine List.filter_eq_nil_iff.2 fun c hc => ?_
      simpa using List.all_eq_true.1 hwhite c hc
    rw [hnone]
    split
    · split <;> rfl
    · rfl
  · have hcontent : wholeText [.text (collapse content) span] = collapse content :=
      List.append_nil _
    rw [hcontent]
    exact without_collapseFrom false content

theorem eq_space_of_mem_condenseText {before after : Option Node} {content : Text} {span : Span} :
    ∀ c ∈ wholeText (condenseText before after content span), isWhite c → c = ' ' := by
  unfold condenseText
  split
  · split
    · split
      · exact List.forall_mem_nil _
      · exact List.forall_mem_singleton.2 fun _ => rfl
    · exact List.forall_mem_nil _
  · have hcontent : wholeText [.text (collapse content) span] = collapse content :=
      List.append_nil _
    rw [hcontent]
    exact eq_space_of_mem_collapseFrom

theorem without_wholeText_condenseFrom (before : Option Node) (nodes : List Node) :
    without isWhite (wholeText (condenseFrom before nodes)) =
      without isWhite (wholeText nodes) := by
  induction nodes generalizing before with
  | nil => rfl
  | cons node nodes ih =>
    cases node with
    | element | interpolation => exact ih _
    | text content span =>
      rw [condenseFrom, wholeText_append, without_append, without_wholeText_condenseText, ih]
      exact (without_append _ _).symm

theorem eq_space_of_mem_condenseFrom {before : Option Node} {nodes : List Node} :
    ∀ c ∈ wholeText (condenseFrom before nodes), isWhite c → c = ' ' := by
  induction nodes generalizing before with
  | nil => exact List.forall_mem_nil _
  | cons node nodes ih =>
    cases node with
    | element | interpolation => exact ih
    | text content span =>
      rw [condenseFrom, wholeText_append]
      exact List.forall_mem_append.2 ⟨eq_space_of_mem_condenseText, ih⟩

end Node

/-! ## What is written and what is shown -/

namespace Passage

/-- How the text of siblings is what is written there. -/
structure IsCollapsed (preformatted : Bool) (ps : List Passage) (nodes : List Node) : Prop where
  /-- Nothing but white space is lost or added. -/
  solid : without isWhite (Node.wholeText nodes) = without isWhite (runs ps).flatten
  /-- All the rest that a browser would show is there exactly if white space is kept or none is
  written but what a browser collapses. -/
  shown_iff :
    without isCollapsible (Node.wholeText nodes) = without isCollapsible (runs ps).flatten ↔
    preformatted ∨ ∀ c ∈ (runs ps).flatten, isWhite c → isCollapsible c
  /-- White space that is not kept is a space or nothing. -/
  spaces : preformatted = false → ∀ c ∈ Node.wholeText nodes, isWhite c → c = ' '

theorem isCollapsed_condense (preformatted : Bool) (start : Nat) (ps : List Passage) :
    IsCollapsed preformatted ps (Node.condense preformatted (nodesAll start ps)) := by
  have hmerged : Node.wholeText (Node.mergeTexts (nodesAll start ps)) = (runs ps).flatten :=
    congrArg List.flatten (Node.texts_mergeTexts_nodesAll start ps).1
  rw [Node.condense]
  cases preformatted with
  | true =>
    rw [if_pos rfl]
    refine ⟨by rw [hmerged], by simp [hmerged], ?_⟩
    intro h
    cases h
  | false =>
    rw [if_neg Bool.false_ne_true]
    let shown := Node.wholeText (Node.condenseFrom none (Node.mergeTexts (nodesAll start ps)))
    have hsolid : without isWhite shown = without isWhite (runs ps).flatten := by
      rw [← hmerged]
      exact Node.without_wholeText_condenseFrom none _
    have hspaces : ∀ c ∈ shown, isWhite c → c = ' ' := Node.eq_space_of_mem_condenseFrom
    have hshown : without isWhite shown = without isCollapsible shown := by
      refine (without_eq_iff (fun _ => isWhite_of_isCollapsible) shown).2 fun c hc hwhite => ?_
      rw [hspaces c hc hwhite]
      rfl
    refine ⟨hsolid, ?_, fun _ => hspaces⟩
    rw [or_iff_right Bool.false_ne_true, ← without_eq_iff fun _ => isWhite_of_isCollapsible,
      ← hsolid, hshown]

end Passage

/-- In every list of siblings, at the root and in each element, the text is the one that is written
but for white space. Outside of elements named `pre` all white space becomes spaces or nothing, so
the text is there without loss, apart from what a browser collapses, if and only if no other white
space is written there. -/
theorem parse_collapses {source : Text} {nodes : List Node} (h : parse source = .ok nodes) :
    ∃ ps, Passage.sources ps = source ∧ Passage.areProper 0 [] ps ∧
      (∀ ps', Passage.sources ps' = source → Passage.areProper 0 [] ps' → ps' = ps) ∧
      Passage.IsCollapsed false ps nodes ∧
      Forall₂ (fun (p : Tag × List Passage) (e : Tag × List Node) => p.1 = e.1 ∧
          Passage.IsCollapsed (e.1.name = "pre".toList) p.2 e.2)
        (Passage.elementsAll ps) (Node.elementsAll nodes) := by
  obtain ⟨ps, hsource, hproper, rfl⟩ := exists_passages h
  refine ⟨ps, hsource, hproper, fun ps' hsource' hproper' => ?_,
    Passage.isCollapsed_condense false 0 ps, ?_⟩
  · exact passages_unique hproper' hproper (hsource'.trans hsource.symm)
  rw [Node.elementsAll_condense]
  refine (Passage.becomes_nodesAll 0 ps).imp ?_
  rintro p e ⟨htag, start, hchildren⟩
  refine ⟨htag, ?_⟩
  rw [hchildren]
  exact Passage.isCollapsed_condense _ start p.2

/-- `<p>` with a no-break space, written as a reference, and `<pre>` with one that is written as it
is. -/
def spaced : List Passage :=
  [.element (plainTag "p".toList) "<p>".toList [.run "a&nbsp;b".toList] "</p>".toList,
    .element (plainTag "pre".toList) "<pre>".toList [.run "c\u00a0d".toList] "</pre>".toList]

/-- Their tree. -/
def spacedNodes : List Node :=
  [.element (plainTag "p".toList) [.text "a b".toList ⟨3, 11⟩] ⟨0, 15⟩,
    .element (plainTag "pre".toList) [.text "c\u00a0d".toList ⟨20, 24⟩] ⟨15, 30⟩]

/-- The no-break space of the first is turned into a space, and that of the second is kept. -/
theorem parse_collapses_spaced :
    parse "<p>a&nbsp;b</p><pre>c\u00a0d</pre>".toList = .ok spacedNodes ∧
      Passage.sources spaced = "<p>a&nbsp;b</p><pre>c\u00a0d</pre>".toList ∧
      Passage.areProper 0 [] spaced ∧ Passage.IsCollapsed false spaced spacedNodes ∧
      Forall₂ (fun (p : Tag × List Passage) (e : Tag × List Node) => p.1 = e.1 ∧
          Passage.IsCollapsed (e.1.name = "pre".toList) p.2 e.2)
        (Passage.elementsAll spaced) (Node.elementsAll spacedNodes) ∧
      without isCollapsible (Node.wholeText [.text "a b".toList ⟨3, 11⟩]) ≠
        without isCollapsible (Passage.runs [.run "a&nbsp;b".toList]).flatten := by
  have hparse : parse "<p>a&nbsp;b</p><pre>c\u00a0d</pre>".toList = .ok spacedNodes := by
    decide +kernel
  have hproper : Passage.areProper 0 [] spaced := by
    have hp : Passage.IsRunBefore "</p><pre>c\u00a0d</pre>".toList "a&nbsp;b".toList :=
      .of_isRun (by decide) (by decide) (.inr rfl)
    have hpre : Passage.IsRunBefore "</pre>".toList "c\u00a0d".toList :=
      .of_isRun (by decide) (by decide) (.inr rfl)
    exact ⟨⟨false, ⟨"p>".toList, rfl, by decide, by decide +kernel⟩, ⟨hp, trivial⟩,
        "p".toList, rfl, by decide, by decide⟩,
      ⟨false, ⟨"pre>".toList, rfl, by decide, by decide +kernel⟩, ⟨hpre, trivial⟩,
        "pre".toList, rfl, by decide, by decide⟩, trivial⟩
  obtain ⟨ps, -, -, hunique, hroot, hall⟩ := parse_collapses hparse
  obtain rfl := hunique spaced (by decide +kernel) hproper
  exact ⟨hparse, by decide +kernel, hproper, hroot, hall, by decide +kernel⟩

end ModuleServer.Template
