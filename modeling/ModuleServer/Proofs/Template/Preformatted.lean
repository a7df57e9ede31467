import Mathlib.Data.List.Chain
import ModuleServer.Proofs.Template.Condense
import ModuleServer.Proofs.Template.Located
import ModuleServer.Proofs.Template.Passage

/-!
# Texts that are kept as written

Inside of an element stand runs of text, which are its texts once references are replaced
(`Passage.runs`). Condensing keeps them as they are in elements named `pre`, and in others only if
there is nothing to condense; elements inside of a preformatted one are no exception
(`parse_keeps_runs`).
-/

namespace ModuleServer.Template

open Text
open List (Forall₂)

/-! ## Texts -/

/-- The content of a node that is a text. -/
def Node.content? : Node → Option Text
  | .text content _ => some content
  | _ => none

/-- The texts among nodes. -/
def Node.texts (nodes : List Node) : List Text :=
  nodes.filterMap Node.content?

namespace Passage

/-- The texts that are written in passages, `before` being a text that goes on with them. -/
def runsFrom (before : Option Text) : List Passage → List Text
  | [] => before.toList
  | run written :: ps => runsFrom (some (before.getD [] ++ Reference.decode written)) ps
  | comment _ :: ps => runsFrom before ps
  | _ :: ps => before.toList ++ runsFrom none ps

/-- The texts that are written in passages: their runs with references replaced, those that only
comments part being one text. -/
def runs (ps : List Passage) : List Text :=
  runsFrom none ps

end Passage

namespace Node

theorem texts_append (nodes others : List Node) :
    texts (nodes ++ others) = texts nodes ++ texts others :=
  List.filterMap_append

/-! ## Joining -/

/-- Joining a text with what is joined already joins three texts. -/
theorem consMerged_consMerged (a b : Text) (s u : Span) (nodes : List Node) :
    consMerged (.text a s) (consMerged (.text b u) nodes) =
      consMerged (.text (a ++ b) ⟨s.start, u.stop⟩) nodes := by
  rcases nodes with _ | ⟨next, nodes⟩
  · rfl
  · cases next with
    | text c v => simp [consMerged]
    | element | interpolation => rfl

/-- The texts among the nodes of passages are those that are written in them. -/
theorem texts_mergeTexts_nodesAll (start : Nat) (ps : List Passage) :
    texts (mergeTexts (Passage.nodesAll start ps)) = Passage.runs ps ∧
      ∀ before span,
        texts (consMerged (.text before span) (mergeTexts (Passage.nodesAll start ps))) =
          Passage.runsFrom (some before) ps := by
  induction ps generalizing start with
  | nil => exact ⟨rfl, fun _ _ => rfl⟩
  | cons p ps ih =>
    obtain ⟨hruns, hbefore⟩ := ih (start + byteSize p.source)
    cases p with
    | run written =>
      refine ⟨hbefore _ _, fun before span => ?_⟩
      change texts (consMerged _ (consMerged _ (mergeTexts _))) = _
      rw [consMerged_consMerged]
      exact hbefore _ _
    | comment written => exact ⟨hruns, hbefore⟩
    | interpolation written => exact ⟨hruns, fun before _ => congrArg (before :: ·) hruns⟩
    | element tag opening content ending =>
      exact ⟨hruns, fun before _ => congrArg (before :: ·) hruns⟩

/-- Where texts are joined, no two of them are neighbours. -/
theorem areApart_mergeTexts (nodes : List Node) : AreApart (mergeTexts nodes) := by
  induction nodes with
  | nil => exact .nil
  | cons node nodes ih =>
    change AreApart (consMerged node (mergeTexts nodes))
    generalize mergeTexts nodes = merged at ih
    cases node with
    | element | interpolation => exact List.isChain_cons.2 ⟨fun _ _ h => (nomatch h.1), ih⟩
    | text a s =>
      rcases merged with _ | ⟨next, rest⟩
      · exact .singleton _
      · cases next with
        | element | interpolation =>
          refine List.isChain_cons.2 ⟨fun b hb h => ?_, ih⟩
          cases hb
          cases h.2
        | text b u =>
          obtain ⟨hnext, hrest⟩ := List.isChain_cons.1 ih
          exact List.isChain_cons.2 ⟨fun c hc h => hnext c hc ⟨rfl, h.2⟩, hrest⟩

/-! ## Condensing -/

theorem isCollapsed_collapseFrom (inRun : Bool) (t : Text) :
    isCollapsed (collapseFrom inRun t) ∧
      (inRun → headIs isWhite (collapseFrom inRun t) = false) := by
  induction t generalizing inRun with
  | nil => exact ⟨rfl, fun _ => rfl⟩
  | cons c t ih =>
    rw [collapseFrom]
    by_cases hwhite : isWhite c
    · rw [if_pos hwhite]
      obtain ⟨hcollapsed, hhead⟩ := ih true
      cases inRun with
      | true => exact ⟨hcollapsed, fun _ => hhead rfl⟩
      | false =>
        refine ⟨?_, fun hrun => absurd hrun Bool.false_ne_true⟩
        simp [isCollapsed, hcollapsed, hhead rfl]
    · rw [if_neg hwhite]
      obtain ⟨hcollapsed, -⟩ := ih false
      refine ⟨?_, fun _ => ?_⟩
      · simp [isCollapsed, hwhite, hcollapsed]
      · simpa [headIs] using hwhite

theorem isWhiteOnly_collapseFrom (inRun : Bool) (t : Text) :
    isWhiteOnly (collapseFrom inRun t) = isWhiteOnly t := by
  have hspace : isWhite ' ' := by decide
  induction t generalizing inRun with
  | nil => rfl
  | cons c t ih =>
    rw [collapseFrom]
    by_cases hwhite : isWhite c
    · have hcons : isWhiteOnly (c :: t) = isWhiteOnly t := by simp [isWhiteOnly, hwhite]
      rw [if_pos hwhite, hcons]
      cases inRun with
      | true => exact ih true
      | false => simpa [isWhiteOnly, hspace] using ih true
    · rw [if_neg hwhite]
      simp [isWhiteOnly, hwhite]

/-- What is left of a text: nothing, a space between two siblings, or a collapsed text that is not
all white space. -/
theorem condenseText_cases (before after : Option Node) (content : Text) (span : Span) :
    condenseText before after content span = [] ∨
      ∃ kept, condenseText before after content span = [.text kept span] ∧ kept ≠ [] ∧
        isCollapsed kept ∧ (isWhiteOnly kept → before.isSome ∧ after.isSome) := by
  unfold condenseText
  by_cases hwhite : isWhiteOnly content
  · rw [if_pos hwhite]
    split
    · split
      · exact .inl rfl
      · exact .inr ⟨[' '], rfl, List.cons_ne_nil _ _, by decide, fun _ => ⟨rfl, rfl⟩⟩
    · exact .inl rfl
  · rw [if_neg hwhite]
    have hkept : ¬isWhiteOnly (collapse content) := by
      rw [collapse, isWhiteOnly_collapseFrom]
      exact hwhite
    refine .inr ⟨collapse content, rfl, ?_, (isCollapsed_collapseFrom false content).1,
      fun h => absurd h hkept⟩
    intro hnil
    rw [hnil] at hkept
    exact hkept rfl

theorem length_texts_condenseFrom_le (before : Option Node) (nodes : List Node) :
    (texts (condenseFrom before nodes)).length ≤ (texts nodes).length := by
  induction nodes generalizing before with
  | nil => exact Nat.le_refl 0
  | cons node nodes ih =>
    cases node with
    | element | interpolation => exact ih _
    | text content span =>
      rw [condenseFrom, texts_append, List.length_append]
      have hrest := ih (some (.text content span))
      have hlength : (texts (.text content span :: nodes)).length = (texts nodes).length + 1 := rfl
      rcases condenseText_cases before nodes.head? content span with h | ⟨kept, h, -⟩
      · rw [h, hlength]
        exact Nat.le_succ_of_le (Nat.zero_add _ ▸ hrest)
      · rw [h, hlength, Nat.add_comm]
        exact Nat.succ_le_succ hrest

/-- Siblings whose texts condensing keeps are condensed. -/
theorem isSpaced_of_texts {before : Option Node} {nodes : List Node} (hchain : AreApart nodes)
    (h : texts (condenseFrom before nodes) = texts nodes) : isSpaced false before.isSome nodes := by
  induction nodes generalizing before with
  | nil => rfl
  | cons node nodes ih =>
    obtain ⟨hnext, hrest⟩ := List.isChain_cons.1 hchain
    cases node with
    | element | interpolation => exact ih hrest h
    | text content span =>
      rw [condenseFrom, texts_append] at h
      have hlength := length_texts_condenseFrom_le (some (.text content span)) nodes
      have htexts : texts (.text content span :: nodes) = content :: texts nodes := rfl
      rw [htexts] at h
      rcases condenseText_cases before nodes.head? content span with
        hkept | ⟨kept, hkept, hne, hcollapsed, hplace⟩
      · -- a text that is dropped is missed
        rw [hkept] at h
        have hall : texts (condenseFrom (some (.text content span)) nodes) =
            content :: texts nodes := h
        rw [hall] at hlength
        exact absurd hlength (Nat.not_succ_le_self _)
      · rw [hkept] at h
        obtain ⟨rfl, htail⟩ := List.cons.inj h
        have hspaced := ih hrest htail
        have hparted : nodes.head?.any isText = false := by
          cases hhead : nodes.head? with
          | none => rfl
          | some next => exact Bool.eq_false_iff.2 fun h => hnext next hhead ⟨rfl, h⟩
        have hplaced : !isWhiteOnly kept || (before.isSome && !nodes.isEmpty) := by
          cases hwhite : isWhiteOnly kept with
          | false => rfl
          | true =>
            obtain ⟨hbefore, hafter⟩ := hplace hwhite
            rw [hbefore]
            cases nodes with
            | nil => cases hafter
            | cons => rfl
        rw [isSpaced, hparted, hcollapsed, hplaced, List.isEmpty_eq_false_iff.2 hne]
        exact hspaced

/-- The texts of siblings are kept in preformatted elements, and elsewhere if they are condensed. -/
theorem texts_condense_iff (preformatted : Bool) (nodes : List Node) :
    texts (condense preformatted nodes) = texts (mergeTexts nodes) ↔
      preformatted ∨ isSpaced false false (mergeTexts nodes) := by
  rw [condense]
  cases preformatted with
  | true => simp
  | false =>
    rw [if_neg Bool.false_ne_true, or_iff_right Bool.false_ne_true]
    constructor
    · intro h
      exact isSpaced_of_texts (areApart_mergeTexts nodes) h
    · intro h
      have hself : condenseFrom none (mergeTexts nodes) = mergeTexts nodes :=
        condenseFrom_eq_self h
      rw [hself]

end Node

/-! ## Elements -/

mutual

/-- The tag of an element with what stands in it, and those of the elements in it. -/
def Node.elements : Node → List (Tag × List Node)
  | .element tag children _ => (tag, children) :: Node.elementsAll children
  | .text .. => []
  | .interpolation .. => []

/-- The tags of the elements at any depth, each with what stands in it. -/
def Node.elementsAll : List Node → List (Tag × List Node)
  | [] => []
  | node :: nodes => node.elements ++ Node.elementsAll nodes

end

theorem Node.elements_text (content : Text) (span : Span) : (text content span).elements = [] :=
  rfl

theorem Node.elementsAll_eq_flatMap (nodes : List Node) :
    elementsAll nodes = nodes.flatMap elements := by
  induction nodes with
  | nil => rfl
  | cons node nodes ih => rw [elementsAll, ih, List.flatMap_cons]

theorem Node.elementsAll_condense (preformatted : Bool) (nodes : List Node) :
    elementsAll (condense preformatted nodes) = elementsAll nodes := by
  rw [elementsAll_eq_flatMap, elementsAll_eq_flatMap, flatMap_condense elements_text]

namespace Passage

mutual

/-- The tag of an element with what is written in it, and those of the elements in it. -/
def elements : Passage → List (Tag × List Passage)
  | element tag _ content _ => (tag, content) :: elementsAll content
  | run _ => []
  | comment _ => []
  | interpolation _ => []

/-- The tags of the elements at any depth, each with what is written in it. -/
def elementsAll : List Passage → List (Tag × List Passage)
  | [] => []
  | p :: ps => elements p ++ elementsAll ps

end

/-- Whether there is nothing to condense in what is written in an element. -/
def areCondensed (ps : List Passage) : Bool :=
  Node.isSpaced false false (Node.mergeTexts (nodesAll 0 ps))

/-- Whether an element is the one that is written, with its white space condensed. -/
def Becomes (p : Tag × List Passage) (e : Tag × List Node) : Prop :=
  p.1 = e.1 ∧ ∃ start, e.2 = Node.condense (e.1.name = "pre".toList) (nodesAll start p.2)

mutual

theorem becomes_nodes (start : Nat) : ∀ p : Passage,
    Forall₂ Becomes p.elements (Node.elementsAll (p.nodes start))
  | run _ => .nil
  | comment _ => .nil
  | interpolation _ => .nil
  | element tag opening content ending => by
    rw [elements, nodes, Node.elementsAll, Node.elements, Node.elementsAll_condense,
      Node.elementsAll, List.append_nil]
    exact .cons ⟨rfl, _, rfl⟩ (becomes_nodesAll _ content)

/-- The elements of a tree are those that are written, one by one. -/
theorem becomes_nodesAll (start : Nat) : ∀ ps : List Passage,
    Forall₂ Becomes (elementsAll ps) (Node.elementsAll (nodesAll start ps))
  | [] => .nil
  | p :: ps => by
    rw [elementsAll, nodesAll, Node.elementsAll_eq_flatMap, List.flatMap_append,
      ← Node.elementsAll_eq_flatMap, ← Node.elementsAll_eq_flatMap]
    exact List.rel_append (becomes_nodes start p) (becomes_nodesAll _ ps)

end

/-! ## Places do not matter -/

mutual

theorem eraseAll_nodes (start start' : Nat) : ∀ p : Passage,
    Node.eraseAll (p.nodes start) = Node.eraseAll (p.nodes start')
  | run _ => rfl
  | comment _ => rfl
  | interpolation _ => rfl
  | element tag opening content ending => by
    simp only [nodes, Node.eraseAll, Node.erase, Node.eraseAll_condense,
      eraseAll_nodesAll (start + byteSize opening) (start' + byteSize opening) content]

theorem eraseAll_nodesAll (start start' : Nat) : ∀ ps : List Passage,
    Node.eraseAll (nodesAll start ps) = Node.eraseAll (nodesAll start' ps)
  | [] => rfl
  | p :: ps => by
    simp only [nodesAll, Node.eraseAll_eq_map, List.map_append]
    simp only [← Node.eraseAll_eq_map, eraseAll_nodes start start' p,
      eraseAll_nodesAll (start + byteSize p.source) (start' + byteSize p.source) ps]

end

end Passage

theorem Node.isSpaced_eraseAll (preformatted behindSibling : Bool) (nodes : List Node) :
    isSpaced preformatted behindSibling (eraseAll nodes) =
      isSpaced preformatted behindSibling nodes := by
  induction nodes generalizing behindSibling with
  | nil => rfl
  | cons node nodes ih =>
    cases node with
    | element | interpolation => exact ih true
    | text content span =>
      have hhead : (eraseAll nodes).head?.any isText = nodes.head?.any isText := by
        rcases nodes with _ | ⟨next, nodes⟩
        · rfl
        · cases next <;> rfl
      have hempty : (eraseAll nodes).isEmpty = nodes.isEmpty := by
        cases nodes <;> rfl
      rw [eraseAll, erase, isSpaced, isSpaced, hhead, hempty, ih]

theorem Passage.areCondensed_eq (start : Nat) (ps : List Passage) :
    Node.isSpaced false false (Node.mergeTexts (nodesAll start ps)) = areCondensed ps := by
  rw [areCondensed, ← Node.isSpaced_eraseAll, ← Node.isSpaced_eraseAll false false
    (Node.mergeTexts (nodesAll 0 ps)), Node.eraseAll_mergeTexts, Node.eraseAll_mergeTexts,
    eraseAll_nodesAll start 0]

/-- Markup that has a tree is made of passages, in one way. Each element of the tree is one that is
written, and its texts are the runs that are written in it, whatever it stands in, if and only if it
is named `pre` itself or there is nothing to condense in it. -/
theorem parse_keeps_runs {source : Text} {nodes : List Node} (h : parse source = .ok nodes) :
    ∃ ps, Passage.sources ps = source ∧ Passage.areProper 0 [] ps ∧
      (∀ ps', Passage.sources ps' = source → Passage.areProper 0 [] ps' → ps' = ps) ∧
      nodes = Node.condense false (Passage.nodesAll 0 ps) ∧
      Forall₂ (fun (p : Tag × List Passage) (e : Tag × List Node) => p.1 = e.1 ∧
          (Node.texts e.2 = Passage.runs p.2 ↔
            e.1.name = "pre".toList ∨ Passage.areCondensed p.2))
        (Passage.elementsAll ps) (Node.elementsAll nodes) := by
  obtain ⟨ps, hsource, hproper, rfl⟩ := exists_passages h
  refine ⟨ps, hsource, hproper, fun ps' hsource' hproper' => ?_, rfl, ?_⟩
  · exact passages_unique hproper' hproper (hsource'.trans hsource.symm)
  rw [Node.elementsAll_condense]
  refine (Passage.becomes_nodesAll 0 ps).imp ?_
  rintro p e ⟨htag, start, hchildren⟩
  refine ⟨htag, ?_⟩
  rw [hchildren, ← (Node.texts_mergeTexts_nodesAll start p.2).1, Node.texts_condense_iff,
    Passage.areCondensed_eq, decide_eq_true_iff]

/-- The tag of an element without attributes. -/
def plainTag (name : Text) : Tag :=
  ⟨name, .native, []⟩

/-- `<pre>` with a text and a `<code>`, in both of which lines are indented. -/
def highlighted : List Passage :=
  [.element (plainTag "pre".toList) "<pre>".toList
    [.run "  a\n".toList,
      .element (plainTag "code".toList) "<code>".toList [.run "  b\n  c".toList] "</code>".toList]
    "</pre>".toList]

/-- Its tree. -/
def highlightedNodes : List Node :=
  [.element (plainTag "pre".toList)
    [.text "  a\n".toList ⟨5, 9⟩,
      .element (plainTag "code".toList) [.text " b c".toList ⟨15, 22⟩] ⟨9, 29⟩] ⟨0, 35⟩]

/-- The text of the outer element is kept as written, and that of the inner one is not. -/
theorem parse_keeps_runs_highlighted :
    parse "<pre>  a\n<code>  b\n  c</code></pre>".toList = .ok highlightedNodes ∧
      Passage.sources highlighted = "<pre>  a\n<code>  b\n  c</code></pre>".toList ∧
      Passage.areProper 0 [] highlighted ∧
      Forall₂ (fun (p : Tag × List Passage) (e : Tag × List Node) => p.1 = e.1 ∧
          (Node.texts e.2 = Passage.runs p.2 ↔
            e.1.name = "pre".toList ∨ Passage.areCondensed p.2))
        (Passage.elementsAll highlighted) (Node.elementsAll highlightedNodes) := by
  have hparse : parse "<pre>  a\n<code>  b\n  c</code></pre>".toList = .ok highlightedNodes := by
    decide +kernel
  have hproper : Passage.areProper 0 [] highlighted := by
    have hlines : Passage.IsRunBefore "</code></pre>".toList "  b\n  c".toList :=
      .of_isRun (by decide) (by decide) (.inr rfl)
    have hlead : Passage.IsRunBefore "<code>  b\n  c</code></pre>".toList "  a\n".toList :=
      .of_isRun (by decide) (by decide) (.inr rfl)
    have hcode : Passage.IsProper 9 "</pre>".toList (.element (plainTag "code".toList)
        "<code>".toList [.run "  b\n  c".toList] "</code>".toList) :=
      ⟨false, ⟨"code>".toList, rfl, by decide, by decide +kernel⟩, ⟨hlines, trivial⟩,
        "code".toList, rfl, by decide, by decide⟩
    exact ⟨⟨false, ⟨"pre>".toList, rfl, by decide, by decide +kernel⟩, ⟨hlead, hcode, trivial⟩,
      "pre".toList, rfl, by decide, by decide⟩, trivial⟩
  obtain ⟨ps, -, -, hunique, -, hall⟩ := parse_keeps_runs hparse
  obtain rfl := hunique highlighted (by decide +kernel) hproper
  exact ⟨hparse, by decide +kernel, hproper, hall⟩

end ModuleServer.Template
