import ModuleServer.Proofs.Template.Local

/-!
# Markup elsewhere

Passages are read as their nodes (`parse_sources`), and an element is the same wherever it stands
and whatever stands around it, but for places (`IsProper.elsewhere`). So the text of an element,
taken on its own, is read as that element (`parse_element`).
-/

namespace ModuleServer.Template

open Text

/-! ## Reading passages -/

namespace Passage

section Reading

variable {size start : Nat} {rest : Text}

theorem foldlM_token {token : Token} {r r' : Reading} (ts : List Token)
    (h : r.step token = .ok r') :
    (token :: ts).foldlM Reading.step r = ts.foldlM Reading.step r' := by
  rw [List.foldlM_cons, h]
  rfl

theorem IsOpening.tokensFrom {opening : Text} {tag : Tag} {selfClosing : Bool}
    (h : IsOpening start rest opening tag selfClosing)
    (hsize : start + byteSize (opening ++ rest) = size) :
    tokensFrom size (opening ++ rest) =
      .opening tag selfClosing ⟨start, start + byteSize opening⟩ :: tokensFrom size rest := by
  obtain ⟨written, rfl, -⟩ := id h
  rw [List.cons_append] at hsize ⊢
  exact tokensFrom_token (lexeme_of_isOpening h hsize)

/-- The end tag of the innermost open element. -/
theorem IsEnding.foldlM {ending : Text} {frame : Frame} {frames : List Frame} {found : List Node}
    (h : IsEnding rest ending frame.tag) (hsize : start + byteSize (ending ++ rest) = size) :
    (tokensFrom size (ending ++ rest)).foldlM Reading.step ⟨frame :: frames, found⟩ =
      (tokensFrom size rest).foldlM Reading.step
        ⟨frames, .element frame.tag (Node.condense (frame.tag.name = "pre".toList) found.reverse)
          ⟨frame.start, start + byteSize ending⟩ :: frame.before⟩ := by
  obtain ⟨written, rfl, hcut, hname⟩ := h
  have htext :
      '<' :: '/' :: (written ++ ['>']) ++ rest = '<' :: '/' :: (written ++ '>' :: rest) := by
    simp
  rw [htext] at hsize ⊢
  rw [tokensFrom_token (lexeme_ending hcut hsize)]
  refine foldlM_token _ ?_
  simp only [Reading.step, if_pos hname]

mutual

/-- Reading a passage adds its nodes. -/
theorem foldlM_source : ∀ (p : Passage) {start : Nat} {rest : Text} (r : Reading),
    p.IsProper start rest → start + byteSize (p.source ++ rest) = size →
      (tokensFrom size (p.source ++ rest)).foldlM Reading.step r =
        (tokensFrom size rest).foldlM Reading.step
          { r with nodes := (p.nodes start).reverse ++ r.nodes }
  | run written, start, rest, r, h, hsize => by
    obtain ⟨c, t, hct, hshows⟩ := exists_shows h
    rw [hct] at hsize ⊢
    rw [tokensFrom_token (hshows size hsize)]
    exact foldlM_token _ rfl
  | comment written, start, rest, r, h, hsize => by
    obtain ⟨c, t, hct, hshows⟩ := exists_shows h
    have hlexeme : lexeme size c t = .comment rest := hshows size (hct ▸ hsize)
    rw [hct, tokensFrom_cons, hlexeme]
    rfl
  | interpolation written, start, rest, r, h, hsize => by
    obtain ⟨c, t, hct, hshows⟩ := exists_shows h
    rw [hct] at hsize ⊢
    rw [tokensFrom_token (hshows size hsize)]
    exact foldlM_token _ rfl
  | element tag opening content ending, start, rest, r, h, hsize => by
    obtain ⟨selfClosing, hopening, hinside⟩ := h
    have htext : source (element tag opening content ending) ++ rest =
        opening ++ (sources content ++ (ending ++ rest)) := by
      simp only [source, List.append_assoc]
    rw [htext] at hsize ⊢
    rw [hopening.tokensFrom hsize]
    by_cases hcomplete : selfClosing || isVoidTag tag.name
    · -- nothing stands in the element
      rw [if_pos hcomplete] at hinside
      obtain ⟨rfl, rfl⟩ := hinside
      refine foldlM_token _ ?_
      rw [Reading.step, if_pos hcomplete, nodes, nodesAll, Node.condense_nil, source, sources,
        List.append_nil, List.append_nil]
      rfl
    · rw [if_neg hcomplete] at hinside
      obtain ⟨hcontent, hending⟩ := hinside
      have hstep : r.step (.opening tag selfClosing ⟨start, start + byteSize opening⟩) =
          .ok ⟨⟨tag, start, r.nodes⟩ :: r.frames, []⟩ := by
        rw [Reading.step, if_neg hcomplete]
      have hinner : start + byteSize opening + byteSize (sources content ++ (ending ++ rest)) =
          size := by
        rw [Nat.add_assoc, ← byteSize_append]
        exact hsize
      have hbehind : start + byteSize opening + byteSize (sources content) +
          byteSize (ending ++ rest) = size := by
        rw [Nat.add_assoc, ← byteSize_append]
        exact hinner
      rw [foldlM_token _ hstep, foldlM_sources content _ hcontent hinner, List.append_nil,
        hending.foldlM hbehind, List.reverse_reverse, nodes, source]
      simp only [byteSize_append, Nat.add_assoc]
      rfl

/-- Reading passages adds their nodes. -/
theorem foldlM_sources : ∀ (ps : List Passage) {start : Nat} {rest : Text} (r : Reading),
    areProper start rest ps → start + byteSize (sources ps ++ rest) = size →
      (tokensFrom size (sources ps ++ rest)).foldlM Reading.step r =
        (tokensFrom size rest).foldlM Reading.step
          { r with nodes := (nodesAll start ps).reverse ++ r.nodes }
  | [], _, _, _, _, _ => rfl
  | p :: ps, start, rest, r, h, hsize => by
    rw [sources, List.append_assoc] at hsize ⊢
    rw [foldlM_source p r h.1 hsize, foldlM_sources ps _ h.2, nodesAll, List.reverse_append,
      List.append_assoc]
    rw [Nat.add_assoc, ← byteSize_append]
    exact hsize

end

end Reading

/-! ## Moving passages -/

mutual

/-- A passage that is elsewhere. -/
def relocate (f : Nat → Nat) : Passage → Passage
  | element tag opening content ending =>
    element (tag.relocate f) opening (relocateAll f content) ending
  | run written => run written
  | comment written => comment written
  | interpolation written => interpolation written

/-- Passages that are elsewhere. -/
def relocateAll (f : Nat → Nat) : List Passage → List Passage
  | [] => []
  | p :: ps => relocate f p :: relocateAll f ps

end

mutual

@[simp]
theorem source_relocate (f : Nat → Nat) : ∀ p : Passage, (p.relocate f).source = p.source
  | element tag opening content ending => by
    rw [relocate, source, source, sources_relocateAll f content]
  | run _ => rfl
  | comment _ => rfl
  | interpolation _ => rfl

@[simp]
theorem sources_relocateAll (f : Nat → Nat) :
    ∀ ps : List Passage, sources (relocateAll f ps) = sources ps
  | [] => rfl
  | p :: ps => by
    rw [relocateAll, sources, sources, source_relocate f p, sources_relocateAll f ps]

end

mutual

/-- What stands further on becomes nodes that stand further on. -/
theorem nodes_relocate (n start : Nat) : ∀ p : Passage,
    (p.relocate (n + ·)).nodes (n + start) = Node.relocateAll (n + ·) (p.nodes start)
  | element tag opening content ending => by
    have hcontent := nodesAll_relocate n (start + byteSize opening) content
    rw [← Nat.add_assoc] at hcontent
    rw [relocate, nodes, nodes, hcontent, ← Node.relocateAll_condense, source, source,
      sources_relocateAll, Nat.add_assoc]
    rfl
  | run written => by
    rw [relocate, nodes, nodes, Nat.add_assoc]
    rfl
  | comment _ => rfl
  | interpolation written => by
    rw [relocate, nodes, nodes, Nat.add_assoc]
    rfl

theorem nodesAll_relocate (n start : Nat) : ∀ ps : List Passage,
    nodesAll (n + start) (relocateAll (n + ·) ps) =
      Node.relocateAll (n + ·) (nodesAll start ps)
  | [] => rfl
  | p :: ps => by
    rw [relocateAll, nodesAll, nodesAll, nodes_relocate n start p, source_relocate,
      Nat.add_assoc, nodesAll_relocate n _ ps]
    simp only [Node.relocateAll_eq_map, List.map_append]

end

/-! ## Lookahead -/

section Lookahead

variable {rest rest' written a : Text}

/-- What stops a text is told from two characters. -/
theorem stopsText_append (h : 2 ≤ a.length) (rest rest' : Text) :
    stopsText (a ++ rest) = stopsText (a ++ rest') := by
  rcases a with _ | ⟨c, _ | ⟨d, a⟩⟩
  · simp at h
  · simp at h
  · rw [List.cons_append, List.cons_append, List.cons_append, List.cons_append]
    unfold stopsText
    split <;> simp_all

/-- What starts is told from four characters. -/
theorem startsOther_append (h : 4 ≤ a.length) (rest rest' : Text) :
    startsOther (a ++ rest) = startsOther (a ++ rest') := by
  rcases a with _ | ⟨c, _ | ⟨d, _ | ⟨e, _ | ⟨f, a⟩⟩⟩⟩
  · simp at h
  · simp at h
  · simp at h
  · simp at h
  · simp only [List.cons_append]
    by_cases hslash : c = '<' ∧ d = '/'
    · obtain ⟨rfl, rfl⟩ := hslash
      rfl
    by_cases hcomment : c = '<' ∧ d = '!' ∧ e = '-' ∧ f = '-'
    · obtain ⟨rfl, rfl, rfl, rfl⟩ := hcomment
      rfl
    unfold startsOther
    split <;> split <;> simp_all

theorem IsRunBefore.elsewhere (h : IsRunBefore (a ++ rest) written) (ha : 3 ≤ a.length)
    (rest' : Text) : IsRunBefore (a ++ rest') written where
  ne := h.ne
  starts := by
    have hwritten := List.length_pos_iff.2 h.ne
    have hlength : 4 ≤ (written ++ a).length := by
      rw [List.length_append]
      omega
    have hstarts := h.starts
    rw [← List.append_assoc, startsOther_append hlength rest rest'] at hstarts
    rw [← List.append_assoc]
    exact hstarts
  goes := by
    intro before behind heq hbefore hbehind
    have hlength : 2 ≤ (behind ++ a).length := by
      rw [List.length_append]
      omega
    have hgoes := h.goes before behind heq hbefore hbehind
    rw [← List.append_assoc, stopsText_append hlength rest rest'] at hgoes
    rw [← List.append_assoc]
    exact hgoes
  stops := by
    refine .inr ?_
    rcases h.stops with hnil | hstops
    · rw [(List.append_eq_nil_iff.1 hnil).1] at ha
      simp at ha
    · rw [stopsText_append (by omega) rest' rest]
      exact hstops

/-- Where a passage is cut does not depend on what stands behind it. -/
theorem cut?_elsewhere {word : Text} (hne : word ≠ [])
    (h : cut? word (written ++ (word ++ rest)) = some (written, rest)) (rest' : Text) :
    cut? word (written ++ (word ++ rest')) = some (written, rest') := by
  rw [← List.append_assoc] at h ⊢
  have hcut : cut? word (written ++ word) = some (written, []) := cut?_of_append h
  exact cut?_append_right hne hcut rest'

theorem IsEnding.elsewhere {ending : Text} {tag tag' : Tag} (h : IsEnding rest ending tag)
    (htag : tag'.name = tag.name) (rest' : Text) : IsEnding rest' ending tag' := by
  obtain ⟨written, rfl, hcut, hname⟩ := h
  exact ⟨written, rfl, cut?_elsewhere (List.cons_ne_nil _ _) hcut rest', htag ▸ hname⟩

theorem IsEnding.length_le {ending : Text} {tag : Tag} (h : IsEnding rest ending tag) :
    3 ≤ ending.length := by
  obtain ⟨written, rfl, -⟩ := h
  simp

end Lookahead

/-! ## Passages elsewhere -/

mutual

/-- A passage is the same elsewhere, if there is enough behind it to tell where a run ends. -/
theorem IsProper.elsewhere (n : Nat) : ∀ (p : Passage) {start : Nat} {a rest : Text},
    p.IsProper (n + start) (a ++ rest) → (∀ written, p = run written → 3 ≤ a.length) →
      ∀ rest', ∃ p' : Passage, p = p'.relocate (n + ·) ∧ p'.IsProper start (a ++ rest')
  | run written, _, a, rest, h, ha, rest' =>
    ⟨run written, rfl, IsRunBefore.elsewhere h (ha written rfl) rest'⟩
  | comment written, _, a, rest, h, _, rest' =>
    ⟨comment written, rfl, h.1, cut?_elsewhere (List.cons_ne_nil _ _) h.2 (a ++ rest')⟩
  | interpolation written, _, a, rest, h, _, rest' =>
    ⟨interpolation written, rfl, cut?_elsewhere (List.cons_ne_nil _ _) h (a ++ rest')⟩
  | element tag opening content ending, start, a, rest, h, _, rest' => by
    obtain ⟨selfClosing, hopening, hinside⟩ := h
    by_cases hcomplete : selfClosing || isVoidTag tag.name
    · rw [if_pos hcomplete] at hinside
      obtain ⟨rfl, rfl⟩ := hinside
      obtain ⟨tag', rfl, hopening'⟩ := hopening.elsewhere (a ++ rest')
      refine ⟨element tag' opening [] [], rfl, selfClosing, hopening', ?_⟩
      exact if_pos hcomplete ▸ ⟨rfl, rfl⟩
    · rw [if_neg hcomplete] at hinside
      obtain ⟨hcontent, hending⟩ := hinside
      rw [Nat.add_assoc] at hcontent
      obtain ⟨content', rfl, hcontent'⟩ :=
        areProper.elsewhere n content hcontent hending.length_le (a ++ rest')
      obtain ⟨tag', rfl, hopening'⟩ :=
        hopening.elsewhere (sources content' ++ (ending ++ (a ++ rest')))
      refine ⟨element tag' opening content' ending, rfl, selfClosing, hopening', ?_⟩
      exact if_neg hcomplete ▸ ⟨hcontent', hending.elsewhere rfl (a ++ rest')⟩

/-- Passages are the same elsewhere, if there is enough behind them to tell where a run ends. -/
theorem areProper.elsewhere (n : Nat) : ∀ (ps : List Passage) {start : Nat} {a rest : Text},
    areProper (n + start) (a ++ rest) ps → 3 ≤ a.length →
      ∀ rest', ∃ ps', ps = relocateAll (n + ·) ps' ∧ areProper start (a ++ rest') ps'
  | [], _, _, _, _, _, _ => ⟨[], rfl, trivial⟩
  | p :: ps, start, a, rest, h, ha, rest' => by
    obtain ⟨hp, hps⟩ := h
    have hlength : 3 ≤ (sources ps ++ a).length := by
      rw [List.length_append]
      omega
    rw [← List.append_assoc] at hp
    obtain ⟨p', rfl, hp'⟩ := IsProper.elsewhere n p hp (fun _ _ => hlength) rest'
    rw [source_relocate, Nat.add_assoc] at hps
    obtain ⟨ps', rfl, hps'⟩ := areProper.elsewhere n ps hps ha rest'
    refine ⟨p' :: ps', rfl, ?_, hps'⟩
    rw [sources_relocateAll, List.append_assoc] at hp'
    exact hp'

end

end Passage

/-! ## Markup and its elements -/

open Passage

/-- Passages are read as their nodes. -/
theorem parse_sources {ps : List Passage} (h : areProper 0 [] ps) :
    parse (sources ps) = .ok (Node.condense false (nodesAll 0 ps)) := by
  have hsize : 0 + byteSize (sources ps ++ []) = byteSize (sources ps) := by
    rw [List.append_nil, Nat.zero_add]
  have hread := foldlM_sources ps Reading.start h hsize
  rw [List.append_nil] at hread
  rw [parse, tokens, hread, tokensFrom, List.foldlM_nil, Reading.start, List.append_nil]
  change Except.ok (Node.condense false (nodesAll 0 ps).reverse.reverse) = _
  rw [List.reverse_reverse]

/-- The markup of an element is read as that element, but for its place. -/
theorem parse_element {n : Nat} {tag : Tag} {opening ending rest : Text} {content : List Passage}
    (h : (element tag opening content ending).IsProper n rest) :
    ∃ node, parse (element tag opening content ending).source = .ok [node] ∧
      (element tag opening content ending).nodes n = [node.relocate (n + ·)] := by
  replace h : (element tag opening content ending).IsProper (n + 0) ([] ++ rest) := h
  obtain ⟨p', hp', hproper⟩ := IsProper.elsewhere n _ h nofun []
  cases p' with
  | element tag' opening' content' ending' =>
    replace hproper : areProper 0 [] [element tag' opening' content' ending'] := ⟨hproper, trivial⟩
    have hparse := parse_sources hproper
    have hnodes := nodes_relocate n 0 (element tag' opening' content' ending')
    rw [hp', source_relocate]
    rw [sources, sources, List.append_nil] at hparse
    exact ⟨_, hparse, hnodes⟩
  | run | comment | interpolation => cases hp'

end ModuleServer.Template
