import ModuleServer.Proofs.Expression.Parameters
import ModuleServer.Proofs.Expression.Stretch

/-!
# Free names are found

What the scan writes for the text of an expression tree is the text of the tree with its free names
resolved: the brackets that are open, the last visible character and the dots that end what has been
written tell the place of every name.

* `Expr.writes`: by induction on the tree, one case for each form. The invariant is in the context:
  an operand stands where a name is neither a member's nor a key (`Context.Operand`), an entry of an
  object stands behind its opening brace or a comma.
* `prefixNames?_render`: putting an expression into the context resolves its tree.
-/

namespace ModuleServer.Expression

open Text

/-! ## Trees -/

section Trees

variable {locals : List Text}

mutual

/-- For an expression in the place of an operand its resolved tree is written. -/
theorem Expr.writes : ∀ (e : Expr) (ctx : Context) (rest : Text), e.isProper → ctx.Operand →
    (e.hasComma → ctx.brackets.head? ≠ some '{') → e.ending.Stops rest →
    Writes locals ctx e.render rest (e.resolve locals).render
      fun ctx' => e.ending ≠ .number → ctx'.dots = 0
  | .name n, ctx, rest, _, hctx, _, hrest =>
    (writes_operand n hctx hrest).mono fun _ _ hdots _ => hdots
  | .number n, ctx, rest, _, _, _, hrest =>
    (writes_number locals ctx n hrest).mono fun _ _ _ hne => absurd rfl hne
  | .string s, ctx, rest, _, _, _, _ =>
    (writes_quoted locals ctx s rest).mono fun _ _ hdots _ => hdots
  | .template text holes, ctx, rest, hp, _, _, _ => by
    have hopens : (holes.render ++ '`' :: rest).head? ≠ some '{' := by
      cases holes <;> simp [Holes.render]
    obtain ⟨ctx₁, hbrackets₁, htext⟩ := write_chunk locals (ctx.see '`') text hopens
    obtain ⟨ctx₂, hbrackets₂, hholes⟩ := holes.writes ctx₁ ('`' :: rest) hp (by simp)
    refine ⟨ctx₂.see '`', (hbrackets₂.trans hbrackets₁), fun _ => rfl, ?_⟩
    simp only [Expr.render, Expr.resolve, List.cons_append, List.append_assoc, List.nil_append]
    rw [write_tick, htext, hholes, write_closeTick]
  | .member base beforeDot optional behindDot n, ctx, rest, hp, hctx, hcomma, hrest => by
    simp only [Expr.isProper, Bool.and_eq_true, decide_eq_true_eq] at hp
    obtain ⟨hbase, hending⟩ := hp
    refine (Writes.member beforeDot optional behindDot n ?_ hrest).mono fun _ _ hdots _ => hdots
    exact (base.writes ctx _ hbase hctx hcomma
      (Ending.stops_member hending beforeDot optional _)).mono fun _ _ hdots => hdots hending
  | .index base beforeBracket first key last, ctx, rest, hp, hctx, hcomma, _ => by
    simp only [Expr.isProper, Bool.and_eq_true] at hp
    refine (Writes.applied beforeBracket '[' ']' (by decide) (by decide)
      (base.writes ctx _ hp.1 hctx hcomma (Ending.stops_mark _ beforeBracket (by decide) _))
      ?_).mono fun _ _ hdots _ => hdots
    intro ctx₁ hready hhead
    refine Writes.padded keptByGaps_ready hready fun ctx₂ hbrackets₂ h₂ => ?_
    exact (key.writes ctx₂ _ hp.2 h₂.operand (fun _ => by rwa [hbrackets₂])
      (Ending.stops_mark _ last (by decide) _)).mono fun _ _ _ => trivial
  | .call function beforeBracket arguments, ctx, rest, hp, hctx, hcomma, _ => by
    simp only [Expr.isProper, Bool.and_eq_true] at hp
    refine (Writes.applied beforeBracket '(' ')' (by decide) (by decide)
      (function.writes ctx _ hp.1 hctx hcomma (Ending.stops_mark _ beforeBracket (by decide) _))
      ?_).mono fun _ _ hdots _ => hdots
    exact fun ctx₁ hready hhead =>
      arguments.writes ctx₁ _ hp.2 hready hhead (headIs_mark (by decide) rest)
  | .group first inner last, ctx, rest, hp, _, _, _ => by
    refine (Writes.bracketed (by decide) (by decide) ?_).mono fun _ _ hdots _ => hdots
    intro ctx₁ hready hhead
    refine Writes.padded keptByGaps_ready hready fun ctx₂ hbrackets₂ h₂ => ?_
    exact (inner.writes ctx₂ _ hp h₂.operand (fun _ => by rwa [hbrackets₂])
      (Ending.stops_mark _ last (by decide) _)).mono fun _ _ _ => trivial
  | .before op gap operand, ctx, rest, hp, _, hcomma, hrest => by
    simp only [Expr.isProper, Bool.and_eq_true] at hp
    -- an operator that is a word does not touch a name behind it
    have hparts : gap.parts op.isWord (headIs isNameChar (operand.render ++ rest)) := by
      rw [headIs_append operand.render_ne_nil]
      exact hp.2
    have hop : Writes locals ctx op.text (gap.text ++ (operand.render ++ rest)) op.text
        Context.Ready :=
      op.writes locals prefixMarks_plain prefixWords_keyword
        (fun hword => headIs_parts hparts hword)
        (fun hcomma => absurd op.known (by rw [hcomma]; decide))
    have hgap := hop.append fun ctx₁ _ h₁ => writes_keptGap gap keptByGaps_ready h₁
    refine hgap.append fun ctx₂ hbrackets₂ h₂ => ?_
    exact operand.writes ctx₂ rest hp.1 h₂.operand (fun h => by rw [hbrackets₂]; exact hcomma h)
      hrest
  | .behind operand gap op, ctx, rest, hp, hctx, hcomma, _ => by
    have hmem : op.text ∈ postfixMarks := by simpa using op.known
    obtain ⟨hne, hplain⟩ := postfixMarks_plain _ hmem
    have hoperand := operand.writes ctx (gap.text ++ (op.text ++ rest)) hp hctx hcomma
      (Ending.stops (headIs_gap gap (fun _ => isNumberChar_of_white) fun _ =>
        headIs_marks hne hplain rest))
    have hgap := hoperand.append fun ctx₁ _ h₁ => writes_keptGap gap (keptByGaps_dots _) h₁
    refine hgap.append fun ctx₂ _ _ => (writes_marks locals ctx₂ hne hplain rest).mono ?_
    rintro _ - ⟨_, _, _, _, hdots⟩ _
    exact hdots
  | .between left beforeOp op behindOp right, ctx, rest, hp, hctx, hcomma, hrest => by
    simp only [Expr.isProper, Bool.and_eq_true] at hp
    obtain ⟨⟨⟨hleft, hright⟩, hbefore⟩, hbehind⟩ := hp
    simp only [Expr.hasComma, Bool.or_eq_true, decide_eq_true_eq] at hcomma
    refine Writes.operated beforeOp op behindOp (fun h => hcomma (.inl (.inl h)))
      right.render_ne_nil hbehind
      (left.writes ctx _ hleft hctx (fun h => hcomma (.inl (.inr h)))
        (Ending.stops_operator op hbefore _)) ?_
    intro ctx₁ hbrackets₁ h₁
    exact right.writes ctx₁ rest hright h₁.operand
      (fun h => by rw [hbrackets₁]; exact hcomma (.inr h)) hrest
  | .conditional test beforeMark behindMark yes beforeColon behindColon no, ctx, rest, hp, hctx,
      hcomma, hrest => by
    simp only [Expr.isProper, Bool.and_eq_true] at hp
    obtain ⟨⟨htest, hyes⟩, hno⟩ := hp
    simp only [Expr.hasComma, Bool.or_eq_true] at hcomma
    refine Writes.chosen beforeMark behindMark beforeColon behindColon
      (test.writes ctx _ htest hctx (fun h => hcomma (.inl (.inl h)))
        (Ending.stops_mark _ beforeMark (by decide) _)) ?_ ?_
    · intro ctx₁ hbrackets₁ h₁
      exact (yes.writes ctx₁ _ hyes h₁.operand
        (fun h => by rw [hbrackets₁]; exact hcomma (.inl (.inr h)))
        (Ending.stops_mark _ beforeColon (by decide) _)).mono fun _ _ _ => trivial
    · intro ctx₂ hbrackets₂ h₂
      exact no.writes ctx₂ rest hno h₂.operand
        (fun h => by rw [hbrackets₂]; exact hcomma (.inr h)) hrest
  | .array items, ctx, rest, hp, _, _, _ => by
    refine (Writes.bracketed (by decide) (by decide) ?_).mono fun _ _ hdots _ => hdots
    exact fun ctx₁ hready hhead =>
      items.writes ctx₁ _ hp hready hhead (headIs_mark (by decide) rest)
  | .object entries, ctx, rest, hp, _, _, _ => by
    refine (Writes.enclosed (by decide) (by decide) ?_).mono fun _ _ hdots _ => hdots
    -- behind the brace an entry starts
    intro ctx₁ hbrackets₁ hlast₁
    exact entries.writes ctx₁ rest hp ⟨by simp [hbrackets₁], .inl hlast₁⟩

/-- For an item its resolved tree is written. -/
theorem Item.writes : ∀ (item : Item) (ctx : Context) (rest : Text), item.isProper → ctx.Ready →
    ctx.brackets.head? ≠ some '{' → headIs isNumberChar rest = false →
    Writes locals ctx item.render rest (item.resolve locals).render fun _ => True
  | .value e, ctx, rest, hp, hctx, hhead, hrest =>
    (e.writes ctx rest hp hctx.operand (fun _ => hhead) (Ending.stops hrest)).mono
      fun _ _ _ => trivial
  | .spread e, ctx, rest, hp, _, hhead, hrest =>
    writes_ellipsis.append fun ctx₁ hbrackets₁ h₁ =>
      (e.writes ctx₁ rest hp h₁ (fun _ => by rwa [hbrackets₁]) (Ending.stops hrest)).mono
        fun _ _ _ => trivial

/-- For items their resolved trees are written. -/
theorem Items.writes : ∀ (items : Items) (ctx : Context) (rest : Text), items.isProper → ctx.Ready →
    ctx.brackets.head? ≠ some '{' → headIs isNumberChar rest = false →
    Writes locals ctx items.render rest (items.resolve locals).render fun _ => True
  | .none gap, ctx, rest, _, _, _, _ => (writes_gap locals ctx gap rest).mono fun _ _ _ => trivial
  | .last first item last, ctx, rest, hp, hctx, hhead, hrest =>
    Writes.padded keptByGaps_ready hctx fun ctx₁ hbrackets₁ h₁ =>
      item.writes ctx₁ _ hp h₁ (by rwa [hbrackets₁])
        (headIs_gap last (fun _ => isNumberChar_of_white) fun _ => hrest)
  | .more first item last others, ctx, rest, hp, hctx, hhead, hrest => by
    simp only [Items.isProper, Bool.and_eq_true] at hp
    refine Writes.followed first last hctx hhead ?_ ?_
    · exact fun ctx₁ hbrackets₁ h₁ =>
        item.writes ctx₁ _ hp.1 h₁ (by rwa [hbrackets₁]) (headIs_gapMark last (by decide) _)
    · exact fun ctx₂ hbrackets₂ h₂ => others.writes ctx₂ rest hp.2 h₂ (by rwa [hbrackets₂]) hrest

/-- For an entry of an object its resolved tree is written. -/
theorem Entry.writes : ∀ (entry : Entry) (ctx : Context) (rest : Text), entry.isProper →
    AtEntry ctx → (firstVisible? rest = some ',' ∨ firstVisible? rest = some '}') →
    headIs isNumberChar rest = false →
    Writes locals ctx entry.render rest (entry.resolve locals).render fun _ => True
  | .named key beforeColon behindColon value, ctx, rest, hp, hctx, _, hrest => by
    simp only [Entry.isProper, Bool.and_eq_true, Bool.not_eq_true'] at hp
    refine Writes.between keptByGaps_true keptByGaps_ready
      (writes_keyName key hctx (headIs_isNameChar (headIs_gapMark beforeColon (by decide) _))
        (firstVisible?_gap beforeColon (by decide) _))
      (fun ctx₁ _ _ => writes_plain (by decide) fun h => absurd h (by decide)) ?_
    intro ctx₂ _ h₂
    exact (value.writes ctx₂ rest hp.1 h₂.operand (fun h => by simp [hp.2] at h)
      (Ending.stops hrest)).mono fun _ _ _ => trivial
  | .quoted key beforeColon behindColon value, ctx, rest, hp, _, _, hrest => by
    simp only [Entry.isProper, Bool.and_eq_true, Bool.not_eq_true'] at hp
    refine Writes.between keptByGaps_true keptByGaps_ready
      ((writes_quoted locals ctx key _).mono fun _ _ _ => trivial)
      (fun ctx₁ _ _ => writes_plain (by decide) fun h => absurd h (by decide)) ?_
    intro ctx₂ _ h₂
    exact (value.writes ctx₂ rest hp.1 h₂.operand (fun h => by simp [hp.2] at h)
      (Ending.stops hrest)).mono fun _ _ _ => trivial
  | .shorthand n, ctx, rest, _, hctx, hend, hrest =>
    writes_shorthand n hctx (headIs_isNameChar hrest) hend
  | .spread e, ctx, rest, hp, _, _, hrest => by
    simp only [Entry.isProper, Bool.and_eq_true, Bool.not_eq_true'] at hp
    exact writes_ellipsis.append fun ctx₁ _ h₁ =>
      (e.writes ctx₁ rest hp.1 h₁ (fun h => by simp [hp.2] at h) (Ending.stops hrest)).mono
        fun _ _ _ => trivial

/-- For the entries of an object their resolved trees are written. -/
theorem Entries.writes : ∀ (entries : Entries) (ctx : Context) (rest : Text), entries.isProper →
    AtEntry ctx →
    Writes locals ctx entries.render ('}' :: rest) (entries.resolve locals).render fun _ => True
  | .none gap, ctx, rest, _, _ => (writes_gap locals ctx gap _).mono fun _ _ _ => trivial
  | .last first entry last, ctx, rest, hp, hctx =>
    Writes.padded keptByGaps_atEntry hctx fun ctx₁ _ h₁ =>
      entry.writes ctx₁ _ hp h₁ (.inr (firstVisible?_gap last (by decide) rest))
        (headIs_gapMark last (by decide) rest)
  | .more first entry last others, ctx, rest, hp, hctx => by
    simp only [Entries.isProper, Bool.and_eq_true] at hp
    have hentry : Writes locals ctx (first.text ++ entry.render ++ last.text)
        (',' :: (others.render ++ '}' :: rest))
        (first.text ++ (entry.resolve locals).render ++ last.text) fun _ => True :=
      Writes.padded keptByGaps_atEntry hctx fun ctx₁ _ h₁ =>
        entry.writes ctx₁ _ hp.1 h₁ (.inl (firstVisible?_gap last (by decide) _))
          (headIs_gapMark last (by decide) _)
    have hcomma := hentry.append (u := [',']) fun ctx₂ _ _ =>
      (writes_mark locals ctx₂ (c := ',') (by decide) _).mono fun _ _ h => h.1
    exact hcomma.append fun ctx₃ hbrackets₃ h₃ =>
      others.writes ctx₃ rest hp.2 ⟨by rw [hbrackets₃]; exact hctx.1, .inr h₃⟩

/-- For the holes of a template literal their resolved trees are written. -/
theorem Holes.writes : ∀ (holes : Holes) (ctx : Context) (rest : Text), holes.isProper →
    rest.head? ≠ some '{' →
    ∃ ctx', ctx'.brackets = ctx.brackets ∧
      write locals (.literal ctx) (holes.render ++ rest) =
        (holes.resolve locals).render ++ write locals (.literal ctx') rest
  | .none, ctx, rest, _, _ => ⟨ctx, rfl, rfl⟩
  | .more first e last text others, ctx, rest, hp, hrest => by
    simp only [Holes.isProper, Bool.and_eq_true] at hp
    obtain ⟨⟨he, hbraces⟩, hothers⟩ := hp
    -- the hole is an expression of its own, scanned from the start
    obtain ⟨ctx₁, -, -, hinner⟩ : Writes locals .start (first.text ++ e.render ++ last.text) []
        (first.text ++ (e.resolve locals).render ++ last.text) fun _ => True :=
      Writes.padded keptByGaps_ready Context.ready_start fun ctx' hbrackets' h' =>
        (e.writes ctx' _ he h'.operand (fun _ => by simp [hbrackets', Context.start])
          (Ending.stops (headIs_gap last (fun _ => isNumberChar_of_white) fun _ => rfl))).mono
          fun _ _ _ => trivial
    rw [List.append_nil, write_nil, List.append_nil] at hinner
    have hopens : (others.render ++ rest).head? ≠ some '{' := by
      cases others <;> simp [Holes.render, hrest]
    obtain ⟨ctx₂, hbrackets₂, htext⟩ := write_chunk locals (ctx.see '}') text hopens
    obtain ⟨ctx₃, hbrackets₃, hmore⟩ := others.writes ctx₂ rest hothers hrest
    have hhole := write_hole locals ctx
      (readHole_render hbraces first last (text.text ++ (others.render ++ rest)))
    refine ⟨ctx₃, hbrackets₃.trans hbrackets₂, ?_⟩
    simp only [Holes.render, Holes.resolve, List.cons_append, List.append_assoc,
      List.nil_append] at hhole ⊢
    rw [hhole, htext, hmore]
    simp only [List.append_assoc] at hinner
    rw [hinner]
    simp

end

end Trees

/-- For an expression by itself its resolved tree is written. -/
theorem write_render (locals : List Text) (first last : Gap) {e : Expr} (he : e.isProper) :
    write locals (.code .start) (first.text ++ e.render ++ last.text) =
      first.text ++ (e.resolve locals).render ++ last.text := by
  have hwrites : Writes locals .start (first.text ++ e.render ++ last.text) []
      (first.text ++ (e.resolve locals).render ++ last.text) fun _ => True :=
    Writes.padded keptByGaps_ready Context.ready_start fun ctx hbrackets hready =>
      (e.writes ctx _ he hready.operand (fun _ => by simp [hbrackets, Context.start])
        (Ending.stops (headIs_gap last (fun _ => isNumberChar_of_white) fun _ => rfl))).mono
        fun _ _ _ => trivial
  obtain ⟨ctx, -, -, heq⟩ := hwrites
  rwa [write_nil, List.append_nil, List.append_nil] at heq

/-- Putting an expression into the context makes its free names members of the context, writes out
the entries of objects that are key and value in one, and changes nothing else: what is written is
the text of the resolved tree. -/
theorem prefixNames?_render (locals : List Text) (first last : Gap) (e : Expr) (he : e.isProper)
    (hfunction : has "function".toList (first.text ++ e.render ++ last.text) = false)
    (harrow : has ['=', '>'] (first.text ++ e.render ++ last.text) = false) :
    prefixNames? locals (first.text ++ e.render ++ last.text) =
      some (first.text ++ (e.resolve locals).render ++ last.text) := by
  rw [prefixNames?, parameterNames?_eq_nil harrow (.inl hfunction)]
  exact congrArg some (write_render locals first last he)

/-- An expression with names in every place: as operands, some of them bound or allowed, as keys and
members, in a spread, in a hole, and as entries of objects. There are braces in a string and in the
text of a literal. -/
def mixedExpression : Expr :=
  let number := Expr.number <| .mk "1".toList (some "5".toList) (some ('e', some '-', ['3']))
  let choice := Expr.conditional
    (.member (.name (.mk "x".toList)) .none true .none (.mk "y".toList)) .space .space
    (.array <| .more .none (.spread (.name (.mk "z".toList))) .none <|
      .last .space (.value number) .none) .space .space
    (.between (.name (.mk "n".toList)) .space (.mk "in".toList) .space (.name (.mk "o".toList)))
  let call := Expr.call (.name (.mk "f".toList)) .none <|
    .last .none (.value (.name (.mk "item".toList))) .none
  let object := Expr.object <| .more .space (.shorthand (.mk "a".toList)) .none <|
    .more .space (.quoted (.mk '\'' [.plain 'b', .plain '}']) .none .space choice) .none <|
      .last .space (.spread call) .space
  let literal := Expr.template (.mk [.plain '}']) <|
    .more .space (.object (.last .none (.shorthand (.mk "t".toList)) .none)) .space (.mk []) .none
  .between (.index object .none .space literal .space) .space (.mk "+=".toList) .space
    (.before (.mk "typeof".toList) .space
      (.member (.name (.mk "Math".toList)) .none false .none (.mk "é".toList)))

theorem prefixNames?_render_mixedExpression :
    let text := ("\x7b a, 'b\x7d': x?.y ? [...z, 1.5e-3] : n in o, ...f(item) \x7d" ++
      "[ `\x7d$\x7b \x7bt\x7d \x7d` ] += typeof Math.é ").toList
    mixedExpression.isProper ∧ has "function".toList text = false ∧ has ['=', '>'] text = false ∧
      prefixNames? ["item".toList] text =
        some ("\x7b a: _ctx.a, 'b\x7d': _ctx.x?.y ? [..._ctx.z, 1.5e-3] : _ctx.n in _ctx.o, " ++
          "..._ctx.f(item) \x7d[ `\x7d$\x7b \x7bt: _ctx.t\x7d \x7d` ] += " ++
          "typeof Math.é ").toList := by
  intro text
  have htext : text = Gap.none.text ++ mixedExpression.render ++ Gap.space.text := by
    decide +kernel
  have hproper : mixedExpression.isProper := by decide +kernel
  have hfunction : has "function".toList text = false := by decide +kernel
  have harrow : has ['=', '>'] text = false := by decide +kernel
  refine ⟨hproper, hfunction, harrow, ?_⟩
  rw [htext] at hfunction harrow ⊢
  rw [prefixNames?_render ["item".toList] .none .space mixedExpression hproper hfunction harrow]
  decide +kernel

end ModuleServer.Expression
