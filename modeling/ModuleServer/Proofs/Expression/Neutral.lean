import ModuleServer.Proofs.Expression.Ends
import ModuleServer.Proofs.Expression.Misread

/-!
# Expressions are neutral

The text of an expression closes all that it opens, so it is balanced and can be put anywhere in
code.

* `run_glyphs` and `exists_run_templateText`: a string and the text of a template literal stay where
  they are until they are closed.
* `Code.neutral_render`: the text of every expression, functions among them, is neutral.
* `isMisread_of_not_mem`: where no template literal is written, nothing is misread.
-/

namespace ModuleServer.Expression

open Text Script

/-! ## Tokens -/

/-- A string stays a string until it is closed. -/
theorem run_glyphs {layer : Layer} {quote : Char} {outer : List Layer} {glyphs : List Glyph}
    (hlayer : ∀ pending c, State.step ⟨layer :: outer, pending⟩ c =
      some (stepQuoted layer quote outer pending c))
    (h : glyphs.all (Glyph.isInside quote)) :
    State.run ⟨layer :: outer, .none⟩ (glyphs.flatMap Glyph.text) =
      some ⟨layer :: outer, .none⟩ := by
  induction glyphs with
  | nil => rfl
  | cons g glyphs ih =>
    rw [List.all_cons, Bool.and_eq_true] at h
    have hglyph : State.run ⟨layer :: outer, .none⟩ g.text = some ⟨layer :: outer, .none⟩ := by
      cases g with
      | plain c =>
        have hc : c ≠ quote ∧ c ≠ '\\' := by simpa [Glyph.isInside] using h.1
        rw [Glyph.text, State.run_cons, hlayer]
        simp [stepQuoted, hc.1, hc.2]
      | escaped c =>
        rw [Glyph.text, State.run_cons, hlayer, Option.bind_some]
        exact congrArg (Option.bind · _) (hlayer .escape c)
    rw [List.flatMap_cons, State.run_append, hglyph]
    exact ih h.2

theorem Quoted.neutral (s : Quoted) : Neutral s.text := by
  intro layers hlayers
  have hclosed : ∀ layer, stepCode layers s.quote = some ⟨layer :: layers, .none⟩ →
      (∀ pending c, State.step ⟨layer :: layers, pending⟩ c =
        some (stepQuoted layer s.quote layers pending c)) →
      State.run ⟨layers, .none⟩ s.text = some ⟨layers, .none⟩ := by
    intro layer hopen hlayer
    have hback : s.quote ≠ '\\' := by
      rcases s.isQuote with h | h <;> rw [h] <;> decide
    rw [Quoted.text, State.run_cons, step_of_isCode hlayers, hopen, Option.bind_some,
      State.run_append, run_glyphs hlayer s.inside, Option.bind_some, State.run_cons, hlayer]
    simp [stepQuoted, hback]
  rcases s.isQuote with h | h
  · exact hclosed .single (by rw [h]; rfl) (by rw [h]; exact fun _ _ => rfl)
  · exact hclosed .double (by rw [h]; rfl) (by rw [h]; exact fun _ _ => rfl)

/-- Text of a template literal neither closes it nor opens a hole in it, if no dollar sign in front
makes its first curly bracket do so. -/
theorem exists_run_templateText {outer : List Layer} {glyphs : List Glyph} {pending : Pending}
    (h : isTemplateText glyphs)
    (hpending : pending = .none ∨ pending = .dollar ∧ glyphs.head? ≠ some (.plain '{')) :
    ∃ next, next ≠ .escape ∧ State.run ⟨.literal :: outer, pending⟩ (glyphs.flatMap Glyph.text) =
      some ⟨.literal :: outer, next⟩ := by
  have hescape : pending ≠ .escape := by
    rcases hpending with rfl | ⟨rfl, -⟩ <;> exact nofun
  induction glyphs generalizing pending with
  | nil => exact ⟨pending, hescape, rfl⟩
  | cons g glyphs ih =>
    simp only [isTemplateText, Bool.and_eq_true, Bool.not_eq_true'] at h
    obtain ⟨⟨hinside, hhole⟩, hglyphs⟩ := h
    rw [List.flatMap_cons, State.run_append]
    cases g with
    | plain c =>
      have hc : c ≠ '`' ∧ c ≠ '\\' := by simpa [Glyph.isInside] using hinside
      have hcurly : ¬(pending = .dollar ∧ c = '{') := by
        rintro ⟨rfl, rfl⟩
        simp at hpending
      have hstep : State.run ⟨.literal :: outer, pending⟩ (Glyph.plain c).text =
          some ⟨.literal :: outer, if c = '$' then .dollar else .none⟩ := by
        rw [Glyph.text, State.run_cons]
        simp only [State.step, stepLiteral, hescape, hc, hcurly, if_false, Option.bind_some]
        split <;> rfl
      rw [hstep, Option.bind_some]
      by_cases hdollar : c = '$'
      · rw [if_pos hdollar]
        refine ih hglyphs (.inr ⟨rfl, ?_⟩) nofun
        simpa [hdollar] using hhole
      · rw [if_neg hdollar]
        exact ih hglyphs (.inl rfl) nofun
    | escaped c =>
      have hstep : State.run ⟨.literal :: outer, pending⟩ (Glyph.escaped c).text =
          some ⟨.literal :: outer, .none⟩ := by
        rw [Glyph.text, State.run_cons]
        simp only [State.step, stepLiteral, hescape, if_false, if_true, Option.bind_some]
        rfl
      rw [hstep, Option.bind_some]
      exact ih hglyphs (.inl rfl) nofun

theorem Chunk.exists_run (chunk : Chunk) (outer : List Layer) :
    ∃ next, next ≠ .escape ∧ State.run ⟨.literal :: outer, .none⟩ chunk.text =
      some ⟨.literal :: outer, next⟩ :=
  exists_run_templateText chunk.valid (.inl rfl)

theorem Gap.neutral (gap : Gap) : Neutral gap.text :=
  neutral_white gap.white

/-- A class of characters without brackets and quotes makes neutral texts. -/
theorem neutral_of_class {p : Char → Bool} {t : Text}
    (hp : ['(', ')', '[', ']', '{', '}', '`', '"', '\''].all fun d => !p d) (h : t.all p) :
    Neutral t := by
  refine .plain (List.all_eq_true.2 fun c hc => ?_)
  have hne : ∀ d, p d = false → c ≠ d := by
    rintro d hd rfl
    exact absurd (hd.symm.trans (List.all_eq_true.1 h c hc)) Bool.noConfusion
  simp only [List.all_cons, List.all_nil, Bool.and_true, Bool.and_eq_true, Bool.not_eq_true'] at hp
  obtain ⟨ho, hc, hos, hcs, hoc, hcc, ht, hd, hs⟩ := hp
  simp [Neutral.isPlain, opened?, hne _ ho, hne _ hc, hne _ hos, hne _ hcs, hne _ hoc, hne _ hcc,
    hne _ ht, hne _ hd, hne _ hs]

theorem Name.neutral (n : Name) : Neutral n.text :=
  neutral_of_class (by decide) (all_isNameChar n)

theorem Number.neutral (n : Number) : Neutral n.text :=
  neutral_of_class (by decide) n.all_chars

theorem Operator.neutral {marks words : List Text} (op : Operator marks words)
    (h : (marks ++ words).all fun t => t.all Neutral.isPlain) : Neutral op.text :=
  .plain (List.all_eq_true.1 h op.text op.known)

theorem neutral_memberMark (optional : Bool) : Neutral (memberMark optional) := by
  cases optional <;> exact .plain (by decide)

theorem Names.neutral (names : Names) : Neutral names.text :=
  neutral_of_class (by decide) names.all_text

theorem Parameters.neutral (parameters : Parameters) : Neutral parameters.text := by
  cases parameters with
  | lone n => exact n.neutral
  | listed names => exact names.neutral.round

theorem neutral_asyncText (async : Option Gap) : Neutral (asyncText async) := by
  cases async with
  | none => exact .nil
  | some gap => exact Neutral.append (.plain (by decide)) gap.neutral

theorem Label.neutral (label : Label) : Neutral label.text := by
  cases label with
  | none => exact .nil
  | spread => exact .plain (by decide)
  | key n beforeColon behindColon =>
    exact (n.neutral.append beforeColon.neutral).append (.cons (by decide) behindColon.neutral)
  | quoted s beforeColon behindColon =>
    exact (s.neutral.append beforeColon.neutral).append (.cons (by decide) behindColon.neutral)

/-! ## Expressions -/

mutual

/-- The text of an expression is neutral. -/
theorem Code.neutral_render : ∀ e : Code, Neutral e.render
  | .name n => n.neutral
  | .number n => n.neutral
  | .string s => s.neutral
  | .template text holes => by
    intro layers hlayers
    obtain ⟨pending, hpending, htext⟩ := text.exists_run layers
    obtain ⟨next, hnext, hholes⟩ := holes.exists_run_render layers hpending
    rw [Code.render, State.run_cons, step_of_isCode hlayers]
    show State.run ⟨.literal :: layers, .none⟩ (text.text ++ holes.render ++ ['`']) = _
    rw [State.run_append, State.run_append, htext, Option.bind_some, hholes, Option.bind_some,
      State.run_cons]
    simp [State.step, stepLiteral, hnext]
  | .member base beforeDot optional behindDot n =>
    base.neutral_render.append (beforeDot.neutral.append
      (((neutral_memberMark optional).append behindDot.neutral).append n.neutral))
  | .index base beforeBracket first key last =>
    base.neutral_render.append (beforeBracket.neutral.append
      ((first.neutral.append key.neutral_render).append last.neutral).square)
  | .call callee beforeBracket arguments =>
    callee.neutral_render.append (beforeBracket.neutral.append arguments.neutral_render.round)
  | .group first inner last =>
    ((first.neutral.append inner.neutral_render).append last.neutral).round
  | .before op gap operand =>
    (op.neutral (by decide)).append (gap.neutral.append operand.neutral_render)
  | .behind operand gap op =>
    operand.neutral_render.append (gap.neutral.append (op.neutral (by decide)))
  | .between left beforeOp op behindOp right =>
    left.neutral_render.append (beforeOp.neutral.append ((op.neutral (by decide)).append
      (behindOp.neutral.append right.neutral_render)))
  | .conditional test beforeMark behindMark yes beforeColon behindColon no => by
    have hno : Neutral (':' :: (behindColon.text ++ no.render)) :=
      .cons (by decide) (behindColon.neutral.append no.neutral_render)
    have hyes := ((behindMark.neutral.append yes.neutral_render).append beforeColon.neutral).append
      hno
    exact test.neutral_render.append (beforeMark.neutral.append (.cons (by decide) hyes))
  | .array items => items.neutral_render.square
  | .object entries => entries.neutral_render.curly
  | .arrow async parameters beforeArrow behindArrow body =>
    (neutral_asyncText async).append (parameters.neutral.append (beforeArrow.neutral.append
      ((Neutral.plain (by decide)).append (behindArrow.neutral.append body.neutral_render))))
  | .function beforeBracket parameters beforeBrace first body last => by
    have hbody := (first.neutral.append body.neutral_render).append last.neutral
    have hparameters := parameters.neutral.round.append (beforeBrace.neutral.append hbody.curly)
    have hword : Neutral functionWord := .plain (by decide)
    simpa [Code.render] using hword.append (beforeBracket.neutral.append hparameters)

/-- The text of items is neutral. -/
theorem Codes.neutral_render : ∀ items : Codes, Neutral items.render
  | .none gap => gap.neutral
  | .last first label e last =>
    ((first.neutral.append label.neutral).append e.neutral_render).append last.neutral
  | .more first label e last others => by
    have hitem := ((first.neutral.append label.neutral).append e.neutral_render).append last.neutral
    exact hitem.append (.cons (by decide) others.neutral_render)

/-- The text of holes stays in the template literal that they are in. -/
theorem CodeHoles.exists_run_render : ∀ (holes : CodeHoles) (outer : List Layer)
    {pending : Pending}, pending ≠ .escape → ∃ next, next ≠ .escape ∧
      State.run ⟨.literal :: outer, pending⟩ holes.render = some ⟨.literal :: outer, next⟩
  | .none, _, pending, h => ⟨pending, h, rfl⟩
  | .more first e last text others, outer, pending, h => by
    have hinner := (first.neutral.append e.neutral_render).append last.neutral
    obtain ⟨between, hbetween, htext⟩ := text.exists_run outer
    obtain ⟨next, hnext, hothers⟩ := others.exists_run_render outer hbetween
    refine ⟨next, hnext, ?_⟩
    have hopen : ∀ t, State.run ⟨.literal :: outer, pending⟩ ('$' :: '{' :: t) =
        State.run ⟨.hole :: .literal :: outer, .none⟩ t := by
      intro t
      rw [State.run_cons]
      simp [State.step, stepLiteral, h, State.run_cons]
    rw [CodeHoles.render, hopen, State.run_append, hinner _ rfl, Option.bind_some]
    show State.run ⟨.literal :: outer, .none⟩ (text.text ++ others.render) = _
    rw [State.run_append, htext]
    exact hothers

end

/-! ## Misreading -/

/-- Without its quote no template literal is opened. -/
theorem literal_not_mem_of_step {s next : State} {c : Char} (hc : c ≠ '`')
    (hs : Layer.literal ∉ s.layers) (h : s.step c = some next) : Layer.literal ∉ next.layers := by
  obtain ⟨layers, pending⟩ := s
  cases layers using byPlace with
  | code layers hcode =>
    rw [step_of_isCode hcode] at h
    unfold stepCode at h
    cases hopened : opened? c with
    | some layer =>
      rw [hopened] at h
      cases h
      have hlayer : layer ≠ .literal := by
        rintro rfl
        unfold opened? at hopened
        split_ifs at hopened <;> cases hopened
      exact List.not_mem_cons_of_ne_of_not_mem hlayer.symm hs
    | none =>
      rw [hopened] at h
      dsimp only at h
      split at h
      · cases layers with
        | nil => cases h
        | cons layer outer =>
          obtain ⟨-, hnext⟩ := Option.ite_none_right_eq_some.1 h
          cases hnext
          exact mt (List.mem_cons_of_mem _) hs
      · cases h
        exact hs
  | double outer =>
    simp only [State.step, stepQuoted, Option.some.injEq] at h
    split_ifs at h <;> subst h <;> simp_all
  | single outer =>
    simp only [State.step, stepQuoted, Option.some.injEq] at h
    split_ifs at h <;> subst h <;> simp_all
  | literal outer => exact absurd List.mem_cons_self hs

theorem literal_not_mem_of_run {s next : State} {t : Text} (ht : '`' ∉ t)
    (hs : Layer.literal ∉ s.layers) (h : s.run t = some next) : Layer.literal ∉ next.layers := by
  induction t generalizing s with
  | nil =>
    cases h
    exact hs
  | cons c t ih =>
    obtain ⟨hc, ht⟩ := not_or.1 (mt List.mem_cons.2 ht)
    rw [State.run_cons] at h
    obtain ⟨middle, hstep, hrun⟩ := Option.bind_eq_some_iff.1 h
    exact ih ht (literal_not_mem_of_step (Ne.symm hc) hs hstep) hrun

theorem misreads_of_not_mem {s : State} {pieces : List Piece}
    (h : '`' ∉ pieces.flatMap Piece.source) (hs : Layer.literal ∉ s.layers) :
    misreads s pieces = false := by
  induction pieces generalizing s with
  | nil => rfl
  | cons p pieces ih =>
    rw [List.flatMap_cons, List.mem_append, not_or] at h
    have hhead : s.layers.head? ≠ some .literal := fun hhead => hs (List.mem_of_head? hhead)
    rw [misreads, isHidden, decide_eq_false hhead, Bool.and_false, Bool.false_and, Bool.false_and,
      Bool.false_or]
    cases hrun : s.run p.source with
    | none => rfl
    | some next => exact ih h.2 (literal_not_mem_of_run h.1 hs hrun)

/-- An expression without a template literal is not misread. -/
theorem isMisread_of_not_mem {exp : Text} (h : '`' ∉ exp) : isMisread exp = false := by
  refine misreads_of_not_mem ?_ List.not_mem_nil
  rwa [flatMap_source_readPieces]

end ModuleServer.Expression
