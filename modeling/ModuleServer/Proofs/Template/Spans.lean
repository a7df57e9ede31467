import ModuleServer.Proofs.Template.Located
import ModuleServer.Proofs.Template.Moved

/-!
# Where a tree was written

The places of a tree say where in its markup it was written. Siblings stand one behind another
between the ends of their parent, behind what stands in its tag; an interpolation holds its
expression between its braces; and an element holds markup that is read as that element, wherever it
stands and whatever stands around it (`parse_isWritten`).
-/

namespace ModuleServer.Template

open Text

/-! ## What places say -/

namespace Node

mutual

/-- Whether a node was written in markup where its places say. -/
def IsWritten (source : Text) : Node → Prop
  | element tag children span =>
    (∃ written node, span.Holds source written ∧
      '<' :: tag.name <+: written ∧ ['>'] <:+ written ∧ parse written = .ok [node] ∧
        element tag children span = node.relocate (span.start + ·)) ∧
    Span.InOrder span.start span.stop (tag.items.map Item.span ++ children.map Node.span) ∧
    (∀ item ∈ tag.items, item.span.IsIn source) ∧ areWritten source children
  | text _ span => IsOffset source span.start ∧ IsOffset source span.stop
  | interpolation expression span =>
    ∃ written, span.Holds source ('{' :: '{' :: (written ++ ['}', '}'])) ∧
      ¬['}', '}'] <:+: written ∧ expression = Reference.decode (trim written)

/-- Whether nodes were written in markup where their places say. -/
def areWritten (source : Text) : List Node → Prop
  | [] => True
  | node :: nodes => IsWritten source node ∧ areWritten source nodes

end

variable {source : Text}

theorem areWritten_iff {nodes : List Node} :
    areWritten source nodes ↔ ∀ node ∈ nodes, node.IsWritten source := by
  induction nodes with
  | nil => simp [areWritten]
  | cons node nodes ih => rw [areWritten, ih, List.forall_mem_cons]

/-! ## Condensed siblings -/

section Condense

variable {low high : Nat} {nodes : List Node}

theorem inOrder_consMerged {node : Node}
    (h : Span.InOrder low high (node.span :: nodes.map span)) :
    Span.InOrder low high ((consMerged node nodes).map span) := by
  cases node with
  | element => exact h
  | interpolation => exact h
  | text content place =>
    rcases nodes with _ | ⟨next, nodes⟩
    · exact h
    · cases next with
      | element => exact h
      | interpolation => exact h
      | text =>
        obtain ⟨hlow, hplace, hbetween, hnext, hrest⟩ := h
        exact ⟨hlow, hplace.trans (hbetween.trans_lt hnext), hrest⟩

theorem inOrder_mergeTexts (h : Span.InOrder low high (nodes.map span)) :
    Span.InOrder low high ((mergeTexts nodes).map span) := by
  induction nodes generalizing low with
  | nil => exact h
  | cons node nodes ih => exact inOrder_consMerged ⟨h.1, h.2.1, ih h.2.2⟩

theorem span_condenseText_sublist (before after : Option Node) (content : Text) (place : Span) :
    ((condenseText before after content place).map span).Sublist [place] := by
  unfold condenseText
  split
  · split
    · split
      · exact List.nil_sublist _
      · exact List.Sublist.refl _
    · exact List.nil_sublist _
  · exact List.Sublist.refl _

theorem span_condenseFrom_sublist (before : Option Node) (nodes : List Node) :
    ((condenseFrom before nodes).map span).Sublist (nodes.map span) := by
  induction nodes generalizing before with
  | nil => exact List.Sublist.refl _
  | cons node nodes ih =>
    cases node with
    | element tag children place => exact (ih _).cons_cons _
    | interpolation expression place => exact (ih _).cons_cons _
    | text content place =>
      rw [condenseFrom, List.map_append]
      exact (span_condenseText_sublist _ _ _ _).append (ih _)

/-- Condensed siblings stand one behind another. -/
theorem inOrder_condense (preformatted : Bool) (h : Span.InOrder low high (nodes.map span)) :
    Span.InOrder low high ((condense preformatted nodes).map span) := by
  rw [condense]
  split
  · exact inOrder_mergeTexts h
  · exact (inOrder_mergeTexts h).sublist (span_condenseFrom_sublist _ _)

theorem areWritten_consMerged {node : Node} (hnode : node.IsWritten source)
    (h : areWritten source nodes) : areWritten source (consMerged node nodes) := by
  cases node with
  | element => exact ⟨hnode, h⟩
  | interpolation => exact ⟨hnode, h⟩
  | text content place =>
    rcases nodes with _ | ⟨next, rest⟩
    · exact ⟨hnode, h⟩
    · cases next with
      | element => exact ⟨hnode, h⟩
      | interpolation => exact ⟨hnode, h⟩
      | text => exact ⟨⟨hnode.1, h.1.2⟩, h.2⟩

theorem areWritten_mergeTexts (h : areWritten source nodes) :
    areWritten source (mergeTexts nodes) := by
  induction nodes with
  | nil => trivial
  | cons node nodes ih => exact areWritten_consMerged h.1 (ih h.2)

theorem areWritten_condenseFrom (before : Option Node) (h : areWritten source nodes) :
    areWritten source (condenseFrom before nodes) := by
  induction nodes generalizing before with
  | nil => trivial
  | cons node nodes ih =>
    obtain ⟨hnode, hnodes⟩ := h
    cases node with
    | element => exact ⟨hnode, ih _ hnodes⟩
    | interpolation => exact ⟨hnode, ih _ hnodes⟩
    | text content place =>
      rw [condenseFrom, areWritten_iff, List.forall_mem_append, ← areWritten_iff, ← areWritten_iff]
      refine ⟨?_, ih _ hnodes⟩
      unfold condenseText
      split
      · split
        · split
          · trivial
          · exact ⟨hnode, trivial⟩
        · trivial
      · exact ⟨hnode, trivial⟩

/-- Condensed siblings were written where their places say. -/
theorem areWritten_condense (preformatted : Bool) (h : areWritten source nodes) :
    areWritten source (condense preformatted nodes) := by
  rw [condense]
  split
  · exact areWritten_mergeTexts h
  · exact areWritten_condenseFrom _ (areWritten_mergeTexts h)

end Condense

end Node

/-! ## Opening tags -/

section Items

variable {source t rest : Text} {start : Nat} {name : Text} {found items : List Item}
  {selfClosing : Bool}

/-- The items of a tag stand one behind another in what is read. -/
theorem readItems_written
    (h : readItems (byteSize source) start name found t = .ok (items, selfClosing, rest))
    (ht : t <:+ source) :
    ∃ new, items = found.reverse ++ new ∧
      Span.InOrder (byteSize source - byteSize t) (byteSize source - byteSize rest)
        (new.map Item.span) ∧ ∀ item ∈ new, item.span.IsIn source := by
  have hnone : ∀ {u : Text}, u <:+ t → Span.InOrder (byteSize source - byteSize t)
      (byteSize source - byteSize u) ([] : List Span) := by
    intro u hu
    exact (Span.isIn_of_suffix ht hu).le
  fun_induction readItems (byteSize source) start name found t with
  | case1 => cases h
  | case2 found t r hs =>
    have htrim : trimStart t <:+ t := List.dropWhile_suffix _
    cases h
    rw [hs] at htrim
    refine ⟨[], (List.append_nil _).symm, hnone ?_, List.forall_mem_nil _⟩
    exact ((List.suffix_cons _ _).trans (List.suffix_cons _ _)).trans htrim
  | case3 found t r hs =>
    have htrim : trimStart t <:+ t := List.dropWhile_suffix _
    cases h
    rw [hs] at htrim
    exact ⟨[], (List.append_nil _).symm, hnone ((List.suffix_cons _ _).trans htrim),
      List.forall_mem_nil _⟩
  | case4 found t r _ hs ih =>
    have htrim : trimStart t <:+ t := List.dropWhile_suffix _
    rw [hs] at htrim
    have hr : r <:+ t := (List.suffix_cons _ _).trans htrim
    obtain ⟨new, hnew, horder, hin⟩ := ih h (hr.trans ht)
      fun hu => (Span.isIn_of_suffix (hr.trans ht) hu).le
    exact ⟨new, hnew, horder.of_le (hnone hr), hin⟩
  | case5 => cases h
  | case6 found t c r _ _ _ hs itemStart value behind hread item ih =>
    have htrim : trimStart t <:+ t := List.dropWhile_suffix _
    have hname : r.dropWhile isItemChar <:+ r := List.dropWhile_suffix _
    rw [hs] at htrim
    have hr : behind <:+ r := (readAssignment?_suffix hread).trans hname
    have hbehind : behind <:+ c :: r := hr.trans (List.suffix_cons _ _)
    have hsource := htrim.trans ht
    obtain ⟨new, hnew, horder, hin⟩ := ih h (hbehind.trans hsource)
      fun hu => (Span.isIn_of_suffix (hbehind.trans hsource) hu).le
    have hspan : item.span =
        ⟨byteSize source - byteSize (c :: r), byteSize source - byteSize behind⟩ :=
      span_ofText _ _ _
    refine ⟨item :: new, ?_, ?_, ?_⟩
    · rw [hnew, List.reverse_cons, List.append_assoc]
      rfl
    · have hlt : byteSize source - byteSize (c :: r) < byteSize source - byteSize behind := by
        have hle := byteSize_le_of_suffix hr
        have hsize := byteSize_le_of_suffix hsource
        have hc := Char.utf8Size_pos c
        rw [byteSize_cons] at hsize ⊢
        omega
      rw [List.map_cons, hspan]
      exact ⟨hnone htrim, hlt, horder⟩
    · rw [List.forall_mem_cons, hspan]
      exact ⟨Span.isIn_of_suffix hsource hbehind, hin⟩

end Items

/-! ## Passages -/

namespace Passage

section Written

variable {rest opening before : Text} {tag : Tag} {selfClosing : Bool}

theorem source_ne_nil {start : Nat} {p : Passage} (h : p.IsProper start rest) : p.source ≠ [] := by
  cases p with
  | run written => exact h.ne
  | comment written => exact List.cons_ne_nil _ _
  | interpolation written => exact List.cons_ne_nil _ _
  | element tag opening content ending =>
    obtain ⟨_, ⟨w, rfl, -⟩, -⟩ := h
    exact List.cons_ne_nil _ _

theorem byteSize_source_pos {start : Nat} {p : Passage} (h : p.IsProper start rest) :
    0 < byteSize p.source := by
  obtain ⟨c, t, ht⟩ := List.exists_cons_of_ne_nil (source_ne_nil h)
  rw [ht, byteSize_cons]
  exact Nat.add_pos_left (Char.utf8Size_pos c) _

/-- A passage becomes at most one node, which stands where the passage does. -/
theorem span_nodes_sublist (start : Nat) (p : Passage) :
    ((p.nodes start).map Node.span).Sublist [⟨start, start + byteSize p.source⟩] := by
  cases p with
  | comment written => exact List.nil_sublist _
  | run | interpolation | element => exact List.Sublist.refl _

/-- The nodes of passages stand one behind another. -/
theorem inOrder_nodesAll {start : Nat} {ps : List Passage} (h : areProper start rest ps) :
    Span.InOrder start (start + byteSize (sources ps)) ((nodesAll start ps).map Node.span) := by
  induction ps generalizing start with
  | nil => exact Nat.le_refl _
  | cons p ps ih =>
    have hpos := byteSize_source_pos h.1
    have hfirst : Span.InOrder start (start + byteSize p.source)
        [⟨start, start + byteSize p.source⟩] :=
      ⟨Nat.le_refl _, Nat.lt_add_of_pos_right hpos, Nat.le_refl _⟩
    rw [nodesAll, List.map_append, sources, byteSize_append, ← Nat.add_assoc]
    exact (hfirst.sublist (span_nodes_sublist start p)).append (ih h.2)

theorem IsOpening.inOrder (h : IsOpening (byteSize before) rest opening tag selfClosing) :
    Span.InOrder (byteSize before) (byteSize before + byteSize opening)
        (tag.items.map Item.span) ∧
      ∀ item ∈ tag.items, item.span.IsIn (before ++ (opening ++ rest)) := by
  obtain ⟨w, hopening, -, -, -, hitems⟩ := h.parts
  rw [← byteSize_append] at hitems
  have hsuffix : w.dropWhile isNameChar ++ '>' :: rest <:+ opening ++ rest := by
    obtain ⟨x, hx⟩ : w.dropWhile isNameChar <:+ w := List.dropWhile_suffix _
    refine ⟨'<' :: x, ?_⟩
    rw [hopening]
    conv_rhs => rw [← hx]
    simp
  have hwhole : opening ++ rest <:+ before ++ (opening ++ rest) := List.suffix_append _ _
  obtain ⟨new, hnew, horder, hin⟩ := readItems_written hitems (hsuffix.trans hwhole)
  obtain rfl : tag.items = new := hnew
  refine ⟨(horder.of_le ?_).to_le (Nat.le_of_eq ?_), hin⟩
  · have hle := byteSize_le_of_suffix hsuffix
    rw [byteSize_append]
    omega
  · simp only [byteSize_append]
    omega

/-- The markup of an element starts with its tag, and ends with a closing mark. -/
theorem IsProper.ends {start : Nat} {content : List Passage} {ending : Text}
    (h : (element tag opening content ending).IsProper start rest) :
    '<' :: tag.name <+: (element tag opening content ending).source ∧
      ['>'] <:+ (element tag opening content ending).source := by
  obtain ⟨selfClosing, hopening, hinside⟩ := h
  obtain ⟨w, rfl, -, hname, -⟩ := hopening.parts
  constructor
  · refine List.cons_prefix_cons.2 ⟨rfl, ?_⟩
    rw [hname]
    exact ((List.takeWhile_prefix _).trans (List.prefix_append _ _)).trans (List.prefix_append _ _)
  · split at hinside
    · obtain ⟨rfl, rfl⟩ := hinside
      exact ⟨'<' :: w, by simp [source, sources]⟩
    · obtain ⟨-, written, rfl, -⟩ := hinside
      exact ⟨'<' :: (w ++ ['>']) ++ (sources content ++ '<' :: '/' :: written), by simp [source]⟩

end Written

mutual

/-- The nodes of a passage were written where it stands. -/
theorem areWritten_nodes : ∀ (p : Passage) {before rest : Text},
    p.IsProper (byteSize before) rest →
      Node.areWritten (before ++ (p.source ++ rest)) (p.nodes (byteSize before))
  | run written, before, rest, _ => by
    have hholds : Span.Holds (before ++ (written ++ rest))
        ⟨byteSize before, byteSize before + byteSize written⟩ written := ⟨before, rest, rfl, rfl⟩
    exact ⟨⟨hholds.isIn.start, hholds.isIn.stop⟩, trivial⟩
  | comment _, _, _, _ => trivial
  | interpolation written, before, rest, h => by
    refine ⟨⟨written, ⟨before, rest, rfl, rfl⟩, ?_, rfl⟩, trivial⟩
    exact not_infix_of_cut? (List.cons_ne_nil _ _) h
  | element tag opening content ending, before, rest, h => by
    let p : Passage := element tag opening content ending
    obtain ⟨node, hparse, hnode⟩ := parse_element h
    obtain ⟨hstarts, hstops⟩ := IsProper.ends h
    obtain ⟨selfClosing, hopening, hinside⟩ := h
    have htext : before ++ (p.source ++ rest) =
        before ++ (opening ++ (sources content ++ (ending ++ rest))) := by
      simp only [p, source, List.append_assoc]
    have hsize : byteSize p.source =
        byteSize opening + (byteSize (sources content) + byteSize ending) := by
      simp only [p, source, byteSize_append]
    obtain ⟨hitems, hin⟩ := hopening.inOrder
    rw [← htext] at hin
    have hcontent : areProper (byteSize (before ++ opening)) (ending ++ rest) content := by
      rw [byteSize_append]
      split at hinside
      · rw [hinside.1]
        trivial
      · exact hinside.1
    have hwritten := areWritten_nodesAll content hcontent
    have horder := inOrder_nodesAll hcontent
    rw [byteSize_append] at hwritten horder
    rw [List.append_assoc, ← htext] at hwritten
    refine ⟨⟨⟨p.source, node, ⟨before, rest, rfl, rfl⟩, hstarts, hstops, hparse, ?_⟩, ?_, hin,
      Node.areWritten_condense _ hwritten⟩, trivial⟩
    · exact List.singleton_inj.1 hnode
    · refine hitems.append ((Node.inOrder_condense _ horder).to_le ?_)
      change _ ≤ byteSize before + byteSize p.source
      omega

theorem areWritten_nodesAll : ∀ (ps : List Passage) {before rest : Text},
    areProper (byteSize before) rest ps →
      Node.areWritten (before ++ (sources ps ++ rest)) (nodesAll (byteSize before) ps)
  | [], _, _, _ => trivial
  | p :: ps, before, rest, h => by
    have hfirst := areWritten_nodes p h.1
    have hbehind : areProper (byteSize (before ++ p.source)) rest ps := by
      rw [byteSize_append]
      exact h.2
    have hrest := areWritten_nodesAll ps hbehind
    rw [List.append_assoc, byteSize_append] at hrest
    rw [sources, List.append_assoc, nodesAll, Node.areWritten_iff, List.forall_mem_append,
      ← Node.areWritten_iff, ← Node.areWritten_iff]
    exact ⟨hfirst, hrest⟩

end

end Passage

/-! ## Trees -/

theorem areWritten_of_parse {source : Text} {nodes : List Node} (h : parse source = .ok nodes) :
    Node.areWritten source nodes := by
  obtain ⟨ps, rfl, hproper, rfl⟩ := exists_passages h
  replace hproper : Passage.areProper (byteSize []) [] ps := hproper
  have hwritten := Passage.areWritten_nodesAll ps hproper
  rw [List.append_nil] at hwritten
  exact Node.areWritten_condense _ hwritten

mutual

/-- The elements of a node lie in the markup, with all that is in their tags. -/
theorem Node.IsWritten.isIn_of_mem_places {source : Text} : ∀ {node : Node},
    node.IsWritten source → ∀ span ∈ node.places, span.IsIn source
  | element tag children span, ⟨⟨_, _, hholds, _⟩, _, hitems, hchildren⟩ => by
    rw [places]
    refine List.forall_mem_cons.2 ⟨hholds.isIn, List.forall_mem_append.2 ⟨?_, ?_⟩⟩
    · exact List.forall_mem_map.2 hitems
    · exact areWritten.isIn_of_mem_placesAll hchildren
  | text _ _, _ => List.forall_mem_nil _
  | interpolation _ _, _ => List.forall_mem_nil _

theorem Node.areWritten.isIn_of_mem_placesAll {source : Text} : ∀ {nodes : List Node},
    areWritten source nodes → ∀ span ∈ placesAll nodes, span.IsIn source
  | [], _ => List.forall_mem_nil _
  | _ :: _, ⟨hnode, hnodes⟩ => by
    rw [placesAll]
    exact List.forall_mem_append.2
      ⟨hnode.isIn_of_mem_places, areWritten.isIn_of_mem_placesAll hnodes⟩

end

/-- A tree was written where its places say: siblings stand one behind another, children between the
ends of their parent and behind the items of its tag; an interpolation holds its expression and an
element its markup, which is read as that element alone, as many bytes further to the front as it
stands behind the start. -/
theorem parse_isWritten {source : Text} {nodes : List Node} (h : parse source = .ok nodes) :
    Span.InOrder 0 (byteSize source) (nodes.map Node.span) ∧ Node.areWritten source nodes := by
  refine ⟨?_, areWritten_of_parse h⟩
  obtain ⟨ps, rfl, hproper, rfl⟩ := exists_passages h
  have horder := Passage.inOrder_nodesAll hproper
  rw [Nat.zero_add] at horder
  exact Node.inOrder_condense _ horder

/-- Markup with two items, a text around a comment, and an interpolation in an element. -/
def annotated : Text :=
  "<p id=\"a\" :b=\"c\">é<!-- -->y<b>\x7b\x7b z \x7d\x7d</b></p>".toList

/-- Its tree. -/
def annotatedNodes : List Node :=
  [.element ⟨"p".toList, .native, [.attribute ⟨"id".toList, some "a".toList, ⟨3, 9⟩⟩,
      .directive ⟨"bind".toList, some "b".toList, some "c".toList, [], ⟨10, 16⟩⟩]⟩
    [.text "éy".toList ⟨17, 28⟩,
      .element ⟨"b".toList, .native, []⟩ [.interpolation "z".toList ⟨31, 38⟩] ⟨28, 42⟩] ⟨0, 46⟩]

theorem parse_isWritten_annotated :
    parse annotated = .ok annotatedNodes ∧
      Span.InOrder 0 (byteSize annotated) (annotatedNodes.map Node.span) ∧
      Node.areWritten annotated annotatedNodes := by
  have hparse : parse annotated = .ok annotatedNodes := by decide +kernel
  exact ⟨hparse, parse_isWritten hparse⟩

end ModuleServer.Template
