import ModuleServer.Proofs.Template.Condense
import ModuleServer.Proofs.Template.Opening

/-!
# Printed trees are read back

The markup that a normal tree is printed as is read as that tree (`parse_print`), up to the places
of its nodes.

* `Reads` says of a stretch of markup that it is read as some nodes, whatever has been read before;
  stretches are put together by `Reads.append`.
* `reads_node` goes over the tree: an element is an opening tag, the markup of its children, and an
  end tag that condenses them.
-/

namespace ModuleServer.Template

open Text

/-! ## Lexemes -/

section Lexemes

variable {c : Char} {t rest : Text}

theorem tokensFrom_token {size : Nat} {token : Token} (h : lexeme size c t = .token token rest) :
    tokensFrom size (c :: t) = token :: tokensFrom size rest := by
  rw [tokensFrom]
  split <;> simp_all

theorem exists_tokensFrom {size : Nat} (token : Span → Token)
    (h : ∃ span, lexeme size c t = .token (token span) rest) :
    ∃ span, tokensFrom size (c :: t) = token span :: tokensFrom size rest := by
  obtain ⟨span, h⟩ := h
  exact ⟨span, tokensFrom_token h⟩

/-- A text ends here. -/
def Stops (rest : Text) : Prop :=
  rest = [] ∨ stopsText rest

/-- Characters that start nothing but text. -/
def IsRun (t : Text) : Prop :=
  ∀ c ∈ t, c ≠ '<' ∧ c ≠ '{'

instance (t : Text) : Decidable (IsRun t) :=
  List.decidableBAll (fun c => c ≠ '<' ∧ c ≠ '{') t

theorem isRun_encode (content : Text) : IsRun (Reference.encode Reference.inText content) := by
  have hopen : '<' ∉ Reference.encode Reference.inText content :=
    Reference.not_mem_encode (by decide) (by decide) content
  have hbrace : '{' ∉ Reference.encode Reference.inText content :=
    Reference.not_mem_encode (by decide) (by decide) content
  intro c hc
  constructor
  · rintro rfl
    exact hopen hc
  · rintro rfl
    exact hbrace hc

theorem stopsText_cons (hopen : c ≠ '<') (hbrace : c ≠ '{') : stopsText (c :: t) = false := by
  unfold stopsText
  split <;> simp_all

theorem readRun_run (ht : IsRun t) (hrest : Stops rest) : readRun (t ++ rest) = (t, rest) := by
  induction t with
  | nil =>
    rcases hrest with rfl | hstops
    · rfl
    · cases rest with
      | nil => rfl
      | cons c rest => rw [List.nil_append, readRun, if_pos hstops]
  | cons c t ih =>
    obtain ⟨hopen, hbrace⟩ := ht c List.mem_cons_self
    have hgoes := stopsText_cons (t := t ++ rest) hopen hbrace
    rw [List.cons_append, readRun, if_neg (by simp [hgoes]),
      ih fun d hd => ht d (List.mem_cons_of_mem c hd)]

theorem lexeme_text (size : Nat) (hopen : c ≠ '<') (hbrace : c ≠ '{') :
    lexeme size c t = readText size (size - byteSize (c :: t)) c t := by
  unfold lexeme
  split
  · exact absurd rfl hopen
  · exact absurd rfl hopen
  · exact absurd rfl hbrace
  · exact if_neg fun h => hopen h.1

theorem lexeme_opening (size : Nat) (hc : c.isAlpha) :
    lexeme size '<' (c :: t) = readOpening size (size - byteSize ('<' :: c :: t)) (c :: t) := by
  unfold lexeme
  split
  · rename_i heq
    obtain ⟨rfl, -⟩ := List.cons.inj heq
    exact absurd hc (by decide)
  · rename_i heq
    obtain ⟨rfl, -⟩ := List.cons.inj heq
    exact absurd hc (by decide)
  · rename_i heq _
    exact absurd heq (by decide)
  · exact if_pos ⟨rfl, hc⟩

/-- The markup of a text is one token. -/
theorem tokensFrom_text (size : Nat) {content : Text} (hne : content ≠ []) (hrest : Stops rest) :
    ∃ span, tokensFrom size (Reference.encode Reference.inText content ++ rest) =
      .text content span :: tokensFrom size rest := by
  have hdecode : Reference.decode (Reference.encode Reference.inText content) = content :=
    Reference.decode_encode (by decide) content
  have hrun := isRun_encode content
  cases hencode : Reference.encode Reference.inText content with
  | nil =>
    rw [hencode, Reference.decode_nil] at hdecode
    exact absurd hdecode.symm hne
  | cons c t =>
    rw [hencode] at hdecode hrun
    obtain ⟨hopen, hbrace⟩ := hrun c List.mem_cons_self
    refine exists_tokensFrom (.text content) ?_
    rw [List.append_eq, lexeme_text size hopen hbrace, readText,
      readRun_run (fun d hd => hrun d (List.mem_cons_of_mem c hd)) hrest, ← hdecode]
    exact ⟨_, rfl⟩

/-- The markup of an interpolation is one token. -/
theorem tokensFrom_interpolation (size : Nat) {expression : Text}
    (hstart : headIs isWhite expression = false)
    (hend : headIs isWhite expression.reverse = false) (rest : Text) :
    ∃ span, tokensFrom size ((['{', '{', ' '] ++
        Reference.encode Reference.inInterpolation expression ++ [' ', '}', '}']) ++ rest) =
      .interpolation expression span :: tokensFrom size rest := by
  have hdecode : Reference.decode (Reference.encode Reference.inInterpolation expression) =
      expression := Reference.decode_encode (by decide) expression
  have hbrace : '}' ∉ Reference.encode Reference.inInterpolation expression :=
    Reference.not_mem_encode (by decide) (by decide) expression
  generalize hencode : Reference.encode Reference.inInterpolation expression = body
    at hdecode hbrace
  have hblank : [' '].all isWhite = true := by decide
  have htrim : trim ([' '] ++ body ++ [' ']) = body := by
    rw [← hencode]
    exact trim_padded hblank hblank (Reference.headIs_encode hstart)
      (Reference.headIs_reverse_encode hend)
  have hcut : cut? ['}', '}'] ([' '] ++ body ++ [' '] ++ (['}', '}'] ++ rest)) =
      some ([' '] ++ body ++ [' '], rest) := cut?_append (by simpa using hbrace) rest
  have htext : (['{', '{', ' '] ++ body ++ [' ', '}', '}']) ++ rest =
      '{' :: '{' :: ([' '] ++ body ++ [' '] ++ (['}', '}'] ++ rest)) := by
    simp
  rw [htext]
  refine exists_tokensFrom (.interpolation expression) ?_
  change ∃ span, readInterpolation size _ _ = _
  rw [readInterpolation, hcut]
  dsimp only
  rw [htrim, hdecode]
  exact ⟨_, rfl⟩

/-- The markup of an opening tag is one token. -/
theorem tokensFrom_opening (size : Nat) {tag : Tag} (h : tag.isNormal) (rest : Text) :
    ∃ tag' span, tag'.erase = tag.erase ∧
      tokensFrom size ('<' :: (tag.name ++ (tag.items.flatMap Item.print ++ '>' :: rest))) =
        .opening tag' false span :: tokensFrom size rest := by
  obtain ⟨hkind, hchars, hitems, c, name, hname, halpha⟩ := Tag.parts_of_isNormal h
  have hend : headIs isNameChar (tag.items.flatMap Item.print ++ '>' :: rest) = false := by
    cases tag.items <;> rfl
  obtain ⟨items, hread, herase⟩ := readItems_print size
    (size - byteSize ('<' :: (tag.name ++ (tag.items.flatMap Item.print ++ '>' :: rest)))) tag.name
    hitems [] (t := tag.items.flatMap Item.print ++ '>' :: rest) rfl
  have hlexeme : ∃ span,
      lexeme size '<' (tag.name ++ (tag.items.flatMap Item.print ++ '>' :: rest)) =
        .token (.opening ⟨tag.name, tag.kind, items⟩ false span) rest := by
    rw [hname, List.cons_append, lexeme_opening size halpha, ← List.cons_append, ← hname,
      readOpening, takeWhile_run hchars hend, dropWhile_run hchars hend, hread, hkind]
    exact ⟨_, rfl⟩
  obtain ⟨span, hlexeme⟩ := hlexeme
  refine ⟨⟨tag.name, tag.kind, items⟩, span, ?_, tokensFrom_token hlexeme⟩
  rw [Tag.erase, Tag.erase, herase]

/-- The markup of an end tag is one token. -/
theorem tokensFrom_ending (size : Nat) {name : Text} (hname : name.all isNameChar) (rest : Text) :
    ∃ span, tokensFrom size ('<' :: '/' :: (name ++ '>' :: rest)) =
      .ending name span :: tokensFrom size rest := by
  have hmark : '>' ∉ name := by
    intro hmem
    exact absurd (List.all_eq_true.1 hname _ hmem) (by decide)
  have hbare : name.all isBareChar := by
    rw [List.all_eq_true] at hname ⊢
    intro c hc
    have hc := hname c hc
    simp only [isNameChar, Bool.not_eq_true', Bool.or_eq_false_iff] at hc
    simp only [isBareChar, hc.1.1, hc.1.2, Bool.or_false, Bool.not_false]
  have hcut : cut? ['>'] (name ++ '>' :: rest) = some (name, rest) := cut?_append hmark rest
  refine exists_tokensFrom (.ending name) ?_
  change ∃ span, readEnding size _ _ = _
  rw [readEnding, hcut]
  dsimp only
  rw [takeWhile_run hbare (by rfl)]
  exact ⟨_, rfl⟩

end Lexemes

/-! ## Stretches of markup -/

/-- In front of `rest`, the text is read as the nodes, whatever has been read before. -/
def Reads (size : Nat) (t rest : Text) (nodes : List Node) : Prop :=
  ∃ found read, tokensFrom size (t ++ rest) = found ++ tokensFrom size rest ∧
    Node.eraseAll read = Node.eraseAll nodes ∧
    ∀ r : Reading, found.foldlM Reading.step r = .ok { r with nodes := read.reverse ++ r.nodes }

theorem Reads.nil (size : Nat) (rest : Text) : Reads size [] rest [] :=
  ⟨[], [], rfl, rfl, fun _ => rfl⟩

theorem Reads.append {size : Nat} {t u rest : Text} {nodes others : List Node}
    (ht : Reads size t (u ++ rest) nodes) (hu : Reads size u rest others) :
    Reads size (t ++ u) rest (nodes ++ others) := by
  obtain ⟨found, read, htokens, herase, hsteps⟩ := ht
  obtain ⟨found', read', htokens', herase', hsteps'⟩ := hu
  refine ⟨found ++ found', read ++ read', ?_, ?_, fun r => ?_⟩
  · rw [List.append_assoc, htokens, htokens', List.append_assoc]
  · simp only [Node.eraseAll_eq_map, List.map_append] at herase herase' ⊢
    rw [herase, herase']
  · rw [List.foldlM_append, hsteps]
    change List.foldlM _ _ found' = _
    rw [hsteps', List.reverse_append, List.append_assoc]

/-- A token that is a node of its own. -/
theorem Reads.token {size : Nat} {t rest : Text} {token : Token} {node : Node} (node' : Node)
    (htokens : tokensFrom size (t ++ rest) = token :: tokensFrom size rest)
    (hstep : ∀ r : Reading, r.step token = .ok (r.push node'))
    (herase : node'.erase = node.erase) : Reads size t rest [node] := by
  refine ⟨[token], [node'], htokens, congrArg (fun n => [n]) herase, fun r => ?_⟩
  rw [List.foldlM_cons, hstep]
  rfl

/-- The markup of siblings ends a text before it, if they do not start with one. -/
theorem stops_printAll {nodes : List Node} {rest : Text} (hnormal : Node.allNormal nodes)
    (hhead : nodes.head?.any Node.isText = false) (hrest : Stops rest) :
    Stops (Node.printAll nodes ++ rest) := by
  cases nodes with
  | nil => exact hrest
  | cons node nodes =>
    rw [Node.allNormal, Bool.and_eq_true] at hnormal
    obtain ⟨hnode, -⟩ := hnormal
    refine .inr ?_
    cases node with
    | text => simp [Node.isText] at hhead
    | interpolation => rfl
    | element tag children span =>
      rw [Node.isNormal, Bool.and_eq_true] at hnode
      obtain ⟨-, -, -, c, name, hname, halpha⟩ := Tag.parts_of_isNormal hnode.1
      simp only [Node.printAll, Node.print, hname, List.cons_append, stopsText, halpha,
        Bool.true_or]

/-- An element is read as its opening tag, the markup of its children, and the end tag that
condenses them. -/
theorem Reads.element {size : Nat} {tag : Tag} {children : List Node} {span : Span} {rest : Text}
    (htag : tag.isNormal) (hvoid : isVoidTag tag.name = false)
    (hspaced : Node.isSpaced (tag.name = "pre".toList) false children)
    (hchildren : Reads size (Node.printAll children) ('<' :: '/' :: (tag.name ++ '>' :: rest))
      children) :
    Reads size (Node.element tag children span).print rest [.element tag children span] := by
  obtain ⟨tag', start, htag', hopening⟩ := tokensFrom_opening size htag
    (Node.printAll children ++ '<' :: '/' :: (tag.name ++ '>' :: rest))
  obtain ⟨found, read, htokens, herase, hsteps⟩ := hchildren
  obtain ⟨-, hchars, -, -⟩ := Tag.parts_of_isNormal htag
  obtain ⟨stop, hending⟩ := tokensFrom_ending size hchars rest
  have hname : tag'.name = tag.name := by
    injection htag'
  have hcondensed : Node.eraseAll (Node.condense (tag.name = "pre".toList) read) =
      Node.eraseAll children := by
    rw [Node.eraseAll_condense, herase, ← Node.eraseAll_condense, Node.condense_eq_self hspaced]
  -- the children are read inside a frame of their own, and the end tag condenses them
  refine ⟨.opening tag' false start :: (found ++ [.ending tag.name stop]),
    [.element tag' (Node.condense (tag.name = "pre".toList) read) ⟨start.start, stop.stop⟩],
    ?_, ?_, fun r => ?_⟩
  · have htext : (Node.element tag children span).print ++ rest =
        '<' :: (tag.name ++ (tag.items.flatMap Item.print ++ '>' ::
          (Node.printAll children ++ '<' :: '/' :: (tag.name ++ '>' :: rest)))) := by
      simp [Node.print, hvoid]
    rw [htext, hopening, htokens, hending]
    simp
  · simp only [Node.eraseAll, Node.erase, htag', hcondensed]
  · have hopen : r.step (.opening tag' false start) =
        .ok ⟨⟨tag', start.start, r.nodes⟩ :: r.frames, []⟩ := by
      rw [Reading.step, hname, hvoid]
      rfl
    rw [List.foldlM_cons, hopen]
    change List.foldlM _ _ (found ++ _) = _
    rw [List.foldlM_append, hsteps]
    change (Reading.step _ _ >>= _) = _
    simp only [Reading.step, hname, List.append_nil, List.reverse_reverse, if_true]
    rfl

/-- A void element is read as its opening tag. -/
theorem Reads.void {size : Nat} {tag : Tag} {span : Span} {rest : Text} (htag : tag.isNormal)
    (hvoid : isVoidTag tag.name) :
    Reads size (Node.element tag [] span).print rest [.element tag [] span] := by
  obtain ⟨tag', place, htag', hopening⟩ := tokensFrom_opening size htag rest
  have hname : tag'.name = tag.name := by
    injection htag'
  have htext : (Node.element tag [] span).print ++ rest =
      '<' :: (tag.name ++ (tag.items.flatMap Item.print ++ '>' :: rest)) := by
    simp [Node.print, hvoid]
  refine .token (.element tag' [] place) (htext ▸ hopening) (fun r => ?_) ?_
  · rw [Reading.step, hname, hvoid]
    rfl
  · simp only [Node.erase, htag']

mutual

/-- The markup of a node is read as the node, a text only where it ends. -/
theorem reads_node (size : Nat) {rest : Text} : ∀ {node : Node}, node.isNormal →
    (∀ content span, node = .text content span → content ≠ [] ∧ Stops rest) →
    Reads size node.print rest [node]
  | .element tag children span, h, _ => by
    rw [Node.isNormal, Bool.and_eq_true] at h
    obtain ⟨htag, hchildren⟩ := h
    by_cases hvoid : isVoidTag tag.name
    · rw [if_pos hvoid, List.isEmpty_iff] at hchildren
      subst hchildren
      exact .void htag hvoid
    · rw [if_neg hvoid, Bool.and_eq_true] at hchildren
      obtain ⟨hspaced, hnormal⟩ := hchildren
      rw [Bool.not_eq_true] at hvoid
      exact .element htag hvoid hspaced (reads_nodes size hnormal hspaced (.inr rfl))
  | .text content span, _, htext => by
    obtain ⟨hne, hstops⟩ := htext content span rfl
    obtain ⟨place, htokens⟩ := tokensFrom_text size hne hstops
    exact .token (.text content place) htokens (fun _ => rfl) rfl
  | .interpolation expression span, h, _ => by
    rw [Node.isNormal, Bool.and_eq_true, Bool.not_eq_true', Bool.not_eq_true'] at h
    obtain ⟨place, htokens⟩ := tokensFrom_interpolation size h.1 h.2 rest
    exact .token (.interpolation expression place) htokens (fun _ => rfl) rfl

/-- The markup of siblings is read as the siblings. -/
theorem reads_nodes (size : Nat) {rest : Text} {preformatted behindSibling : Bool} :
    ∀ {nodes : List Node}, Node.allNormal nodes →
    Node.isSpaced preformatted behindSibling nodes → Stops rest →
    Reads size (Node.printAll nodes) rest nodes
  | [], _, _, _ => .nil size rest
  | node :: nodes, hnormal, hspaced, hrest => by
    rw [Node.allNormal, Bool.and_eq_true] at hnormal
    obtain ⟨hnode, hnodes⟩ := hnormal
    have hnext : ∃ behind, Node.isSpaced preformatted behind nodes := by
      cases node with
      | text =>
        simp only [Node.isSpaced, Bool.and_eq_true] at hspaced
        exact ⟨true, hspaced.2⟩
      | _ => exact ⟨true, hspaced⟩
    -- a text ends where the next sibling starts, which is no text
    have htext : ∀ content span, node = .text content span →
        content ≠ [] ∧ Stops (Node.printAll nodes ++ rest) := by
      rintro content span rfl
      simp only [Node.isSpaced, Bool.and_eq_true, Bool.not_eq_true'] at hspaced
      obtain ⟨⟨⟨hne, hhead⟩, -⟩, -⟩ := hspaced
      exact ⟨by simpa using hne, stops_printAll hnodes hhead hrest⟩
    obtain ⟨behind, hnext⟩ := hnext
    exact .append (reads_node size hnode htext) (reads_nodes size hnodes hnext hrest)

end

/-- The markup that a normal tree is printed as is read as that tree, up to places. -/
theorem parse_print {nodes : List Node} (h : Node.areNormal nodes) :
    ∃ nodes', parse (Node.printAll nodes) = .ok nodes' ∧
      Node.eraseAll nodes' = Node.eraseAll nodes := by
  rw [Node.areNormal, Bool.and_eq_true] at h
  obtain ⟨hspaced, hnormal⟩ := h
  obtain ⟨found, read, htokens, herase, hsteps⟩ :=
    reads_nodes (byteSize (Node.printAll nodes)) hnormal hspaced (.inl rfl)
  have hend : tokensFrom (byteSize (Node.printAll nodes)) [] = [] := by
    rw [tokensFrom]
  rw [List.append_nil, hend, List.append_nil] at htokens
  refine ⟨Node.condense false read, ?_, ?_⟩
  · rw [parse, tokens, htokens, hsteps]
    simp [Reading.finish, Reading.start]
  · rw [Node.eraseAll_condense, herase, ← Node.eraseAll_condense, Node.condense_eq_self hspaced]

/-- A list with a component, a void element, a preformatted one, and characters that are written as
references. -/
def writtenTemplate : List Node :=
  let element (name : String) (kind : Kind) (items : List Item) (children : List Node) : Node :=
    .element ⟨name.toList, kind, items⟩ children ⟨0, 0⟩
  let valued (name : String) (value : Option String) : Item :=
    .attribute ⟨name.toList, value.map String.toList, ⟨0, 0⟩⟩
  let directed (name : String) (arg exp : Option String) (modifiers : List String) : Item :=
    .directive ⟨name.toList, arg.map String.toList, exp.map String.toList,
      modifiers.map String.toList, ⟨0, 0⟩⟩
  let text (content : String) : Node := .text content.toList ⟨0, 0⟩
  let shown (expression : String) : Node := .interpolation expression.toList ⟨0, 0⟩
  [element "ul" .native
    [valued "title" (some "\"a\" & b"), valued "hidden" none,
      directed "on" (some "click") (some "go(\"x\")") ["stop", "once"],
      directed "else" none none []]
    [element "Link" .component [] [text "1 < 2 \x7b", shown "f(\x7b\x7d)"], text " ",
      element "br" .native [] [], element "pre" .native [] [text "\n  & "]]]

theorem parse_print_writtenTemplate :
    Node.areNormal writtenTemplate ∧
      Node.printAll writtenTemplate =
        "<ul title=\"&quot;a&quot; &amp; b\" hidden".toList ++
        " v-on:click.stop.once=\"go(&quot;x&quot;)\" v-else>".toList ++
        "<Link>1 &lt; 2 &#123;\x7b\x7b f(\x7b&#125;) \x7d\x7d</Link> <br>".toList ++
        "<pre>\n  &amp; </pre></ul>".toList ∧
      ∃ nodes', parse (Node.printAll writtenTemplate) = .ok nodes' ∧
        Node.eraseAll nodes' = Node.eraseAll writtenTemplate := by
  have hnormal : Node.areNormal writtenTemplate := by decide +kernel
  exact ⟨hnormal, by decide +kernel, parse_print hnormal⟩

end ModuleServer.Template
