import ModuleServer.Proofs.Import.Module
import ModuleServer.Proofs.Import.Pass

/-!
# Exactness on modules

On a module of statements and neutral text a pass finds the statements of its form, and nothing
else: neutral text has no keyword in it (`not_starts_neutral`), no literal of a statement has a
place in it where another could start, and no head of one form ends like a head of the other
(`IsHead.form_eq`).

So one pass answers the bare specifiers of its form (`replace_module`). The answers leave the module
as it is otherwise, so that the second pass sees the same statements (`resolveAll_module`).
-/

namespace ModuleServer.Import

open Text

variable {σ ε : Type}

/-! ## Where no statement starts -/

theorem Starts.word {form : Form} {t : Text} (h : Starts form t) :
    ∃ word r, (word = importWord ∨ word = exportWord) ∧ t = word ++ r := by
  obtain ⟨⟨before, content, after, quote⟩, ⟨⟨head, hhead, hbefore⟩, -, -⟩, rfl⟩ := h
  obtain rfl : before = head ++ [quote] := hbefore
  cases hhead with
  | clause hword _ _ _ _ => exact ⟨_, _, hword, by simp only [Literal.source, List.append_assoc]; rfl⟩
  | sideEffect _ => exact ⟨_, _, Or.inl rfl, by simp only [Literal.source, List.append_assoc]; rfl⟩

/-- No statement starts in neutral text, be it the last text or behind a place where one may. -/
theorem not_starts_neutral {form : Form} {t u v y : Text} (hneutral : Neutral t) (huv : u ++ v = t)
    (hv : v ≠ []) (hy : y = [] ∨ ∃ first, Opens first t) : ¬ Starts form (v ++ y) := by
  intro h
  obtain ⟨word, r, hword, heq⟩ := h.word
  have hnot : ¬ word <:+: t := by
    rcases hword with rfl | rfl
    · exact hneutral.1
    · exact hneutral.2
  rcases List.append_eq_append_iff.1 heq with ⟨w, hw, hyr⟩ | ⟨w, hw, -⟩
  · rcases hy with rfl | ⟨first, hopens⟩
    · obtain ⟨rfl, rfl⟩ := List.append_eq_nil_iff.1 hyr.symm
      apply hnot
      rw [← huv, hw]
      exact ⟨u, [], by simp⟩
    · -- the text ends inside the word, but with a character that is in no word
      rcases List.eq_nil_or_concat v with rfl | ⟨front, c, rfl⟩
      · exact absurd rfl hv
      rw [List.concat_eq_append] at huv hw
      rw [← huv, ← List.append_assoc, opens_concat] at hopens
      have hc : c ∈ importWord ∨ c ∈ exportWord ∨ c ∈ fromWord := by
        have hmem : c ∈ word := by simp [hw]
        rcases hword with rfl | rfl
        · exact Or.inl hmem
        · exact Or.inr (Or.inl hmem)
      obtain ⟨hends, hblank⟩ := classes_of_letter hc
      rcases hopens with rfl | rfl | ⟨-, h⟩
      · exact absurd hblank (by decide)
      · exact absurd hends (by decide)
      · rw [hblank] at h
        exact absurd h (by simp)
  · apply hnot
    rw [← huv, hw]
    exact ⟨u, w, by simp⟩

theorem last_ne_of_blanks {x y g g' : Text} {c d : Char} (h : x ++ c :: g = y ++ d :: g')
    (hg : ∀ a ∈ g, isBlank a) (hg' : ∀ a ∈ g', isBlank a) (hc : isBlank c = false)
    (hd : isBlank d = false) : c = d := by
  have hrev : g.reverse ++ c :: x.reverse = g'.reverse ++ d :: y.reverse := by
    simpa using congrArg List.reverse h
  have hclass : ∀ {t : Text}, (∀ a ∈ t, isBlank a) → ∀ a ∈ t.reverse, (!isBlank a) = false := by
    intro t ht a ha
    simp [ht a (List.mem_reverse.1 ha)]
  exact (eq_of_first hrev (hclass hg) (hclass hg') (by simp [hc]) (by simp [hd])).2.1

/-- No head of one form ends with a head of the other. -/
theorem IsHead.form_eq {form form' : Form} {head head' u : Text} (h : IsHead form head)
    (h' : IsHead form' head') (heq : u ++ head' = head) : form = form' := by
  -- the last letter before the blanks tells the forms apart
  have hlast : ∀ {form head}, IsHead form head → ∃ x c gap, head = x ++ c :: gap ∧
      (∀ a ∈ gap, isBlank a) ∧ c = (if form = .clause then 'm' else 't') := by
    intro form head h
    cases h with
    | @clause word between gap _ _ _ _ hgap =>
      exact ⟨word ++ between ++ ['f', 'r', 'o'], 'm', gap, by simp [fromWord], hgap, rfl⟩
    | sideEffect hgap => exact ⟨['i', 'm', 'p', 'o', 'r'], 't', _, rfl, hgap, rfl⟩
  obtain ⟨x, c, gap, rfl, hgap, hc⟩ := hlast h
  obtain ⟨x', c', gap', rfl, hgap', hc'⟩ := hlast h'
  have hblank : ∀ form : Form, isBlank (if form = .clause then 'm' else 't') = false := by
    intro form
    cases form <;> decide
  rw [← List.append_assoc] at heq
  have hcc := last_ne_of_blanks heq hgap' hgap (hc' ▸ hblank form') (hc ▸ hblank form)
  rw [hc, hc'] at hcc
  cases form <;> cases form' <;> simp at hcc <;> rfl

/-- Nothing starts behind the opening quote of a statement, up to the end of its literal. -/
theorem startsBehind_inside {atStart : Bool} {x w : Text} {quote : Char} (hquote : isQuote quote)
    (hw : ∀ c ∈ w, c ≠ '\n' ∧ c ≠ ';') : (x ++ quote :: w).foldl startsBehind atStart = false := by
  have hstays : ∀ {w : Text}, (∀ c ∈ w, c ≠ '\n' ∧ c ≠ ';') → w.foldl startsBehind false = false := by
    intro w hw
    induction w with
    | nil => rfl
    | cons c w ih =>
      have hc := hw c (by simp)
      have hbehind : startsBehind false c = false := by simp [startsBehind, hc]
      rw [List.foldl_cons, hbehind]
      exact ih fun d hd => hw d (by simp [hd])
  have hopening : ∀ b, startsBehind b quote = false := by
    intro b
    have hblank := isBlank_of_isQuote hquote
    rcases isQuote_iff.1 hquote with rfl | rfl <;> simp [startsBehind, hblank]
  rw [List.foldl_append, List.foldl_cons, hopening]
  exact hstays hw

namespace Statement

theorem Readable.inner {st : Statement} (h : st.Readable) :
    ∀ c ∈ st.content ++ [st.quote], c ≠ '\n' ∧ c ≠ ';' := by
  intro c hc
  rcases List.mem_append.1 hc with hc | hc
  · have hinner := h.content c hc
    simp only [isInner, Bool.not_eq_true', Bool.or_eq_false_iff, decide_eq_false_iff_not] at hinner
    exact ⟨hinner.1.2, hinner.2⟩
  · rw [List.mem_singleton.1 hc]
    rcases isQuote_iff.1 h.quote with hq | hq <;> rw [hq] <;> decide

theorem Readable.closes {st : Statement} (h : st.Readable) :
    ∀ c ∈ st.content, c ≠ st.quote ∧ c ≠ '\n' := by
  intro c hc
  refine ⟨?_, (h.inner c (List.mem_append_left _ hc)).1⟩
  rintro rfl
  have hinner := h.content _ hc
  simp only [isInner, h.quote, Bool.true_or, Bool.not_true] at hinner
  exact absurd hinner (by simp)

theorem Readable.startsBehind {st : Statement} (h : st.Readable) (atStart : Bool) :
    st.text.foldl Import.startsBehind atStart = false := by
  rw [Statement.text, List.append_assoc]
  exact startsBehind_inside h.quote h.inner

/-- In the text of a statement of one form, no statement of the other starts. -/
theorem Readable.not_starts {st : Statement} (h : st.Readable) {form : Form}
    (hform : st.head.form ≠ form) {u v y : Text} (huv : u ++ v = st.text) (hopens : Opens true u) :
    ¬ Starts form (v ++ y) := by
  rintro ⟨⟨before, content, after, quote⟩, ⟨⟨head, hhead, hbefore⟩, hquote, -⟩, hsource⟩
  obtain rfl : before = head ++ [quote] := hbefore
  simp only [Literal.source, List.append_assoc, List.singleton_append] at hsource
  rw [Statement.text, List.append_assoc] at huv
  rcases List.append_eq_append_iff.1 huv with ⟨v', hv', hv⟩ | ⟨w, hw, hv⟩
  · -- it would start before the quote, and have an end of this head as its own
    rw [hv, List.append_assoc, List.cons_append] at hsource
    have hno : ∀ c ∈ v', isQuote c = false := by
      intro c hc
      exact h.isHead.no_quote c (by rw [hv']; exact List.mem_append_right _ hc)
    obtain ⟨rfl, -, -⟩ := eq_of_first hsource.symm hno hhead.no_quote h.quote hquote
    exact hform (h.isHead.form_eq hhead hv'.symm)
  · cases w with
    | nil =>
      rw [List.nil_append] at hv
      rw [← hv, List.cons_append] at hsource
      cases head with
      | nil => exact hhead.ne_nil rfl
      | cons d head =>
        obtain rfl : d = st.quote := (List.cons.inj hsource).1
        have hno := hhead.no_quote st.quote (by simp)
        rw [h.quote] at hno
        exact absurd hno (by simp)
    | cons c w =>
      -- it would start inside the literal
      obtain rfl : st.quote = c := (List.cons.inj hv).1
      have hrest : st.content ++ [st.quote] = w ++ v := (List.cons.inj hv).2
      rw [hw, opens_iff, startsBehind_inside h.quote] at hopens
      · exact absurd hopens (by simp)
      · intro c hc
        exact h.inner c (by rw [hrest]; exact List.mem_append_left _ hc)

end Statement

/-! ## One pass -/

namespace Module

/-- The parts that a pass makes of statements and the text behind them. -/
def parts (form : Form) (rest : Text) : List (Text × Statement) → List (Part Char)
  | [] => [.plain rest]
  | (t, st) :: items =>
    if st.head.form = form then
      .plain t :: .literal (st.head.text ++ [st.quote]) st.content st.quote :: parts form rest items
    else .plain t :: .plain st.text :: parts form rest items

theorem textOf_parts (form : Form) (rest : Text) (items : List (Text × Statement)) :
    Part.textOf (parts form rest items) = itemsText items ++ rest := by
  induction items with
  | nil => simp [parts, Part.text, itemsText]
  | cons item items ih =>
    obtain ⟨t, st⟩ := item
    simp only [parts]
    split <;> simp [Part.text, ih, itemsText, Statement.text]

theorem questions_parts (form : Form) (rest : Text) (items : List (Text × Statement)) :
    Part.questions Specifier.isBare (parts form rest items) = formQuestions form items := by
  induction items with
  | nil => rfl
  | cons item items ih =>
    obtain ⟨t, st⟩ := item
    by_cases hform : st.head.form = form
    · by_cases hbare : Specifier.isBare st.content <;>
        simp [parts, Part.questions, formQuestions, Statement.asks, hform, hbare, ih]
    · simp [parts, Part.questions, formQuestions, Statement.asks, hform, ih]

theorem textOf_answered_parts (form : Form) (rest : Text) (items : List (Text × Statement)) :
    ∀ answers, Part.textOf (Part.answered Specifier.isBare (parts form rest items) answers) =
      itemsText (formAnswered form items answers) ++ rest := by
  induction items with
  | nil =>
    intro answers
    simp [parts, Part.answered, formAnswered, Part.text, itemsText]
  | cons item items ih =>
    obtain ⟨t, st⟩ := item
    intro answers
    by_cases hform : st.head.form = form
    · by_cases hbare : Specifier.isBare st.content <;>
        simp [parts, Part.answered, formAnswered, Statement.asks, hform, hbare, ih, Part.text,
          itemsText, Statement.text]
    · simp [parts, Part.answered, formAnswered, Statement.asks, hform, ih, Part.text,
        itemsText, Statement.text]

/-- On a module a pass makes these parts. -/
theorem scans_parts (form : Form) {rest : Text} (hrest : Neutral rest)
    (items : List (Text × Statement)) :
    ∀ first, ItemsOf Statement.Readable first items → Scans form first (parts form rest items) := by
  induction items with
  | nil =>
    intro first _
    refine .plain ?_ .nil
    intro u v huv hv _
    exact not_starts_neutral hrest huv hv (Or.inl rfl)
  | cons item items ih =>
    obtain ⟨t, st⟩ := item
    rintro first ⟨hneutral, hopens, hst, hitems⟩
    have hplain : ∀ y u v, u ++ v = t → v ≠ [] → Opens first u → ¬ Starts form (v ++ y) :=
      fun y u v huv hv _ => not_starts_neutral hneutral huv hv (Or.inr ⟨first, hopens⟩)
    have hstart := opens_iff.1 hopens
    simp only [parts]
    split
    · rename_i hform
      refine .plain (hplain _) ?_
      rw [hstart]
      refine .literal ⟨⟨_, hform ▸ hst.isHead, rfl⟩, hst.quote, ?_⟩ (ih false hitems)
      intro c hc
      exact hst.closes c hc
    · rename_i hform
      refine .plain (hplain _) ?_
      rw [hstart]
      refine .plain ?_ ?_
      · intro u v huv _ hopens
        exact hst.not_starts hform huv hopens
      · rw [hst.startsBehind]
        exact ih false hitems

/-- A pass over a module answers the bare specifiers of its form. -/
theorem replace_module (resolve : Resolution σ ε) (form : Form) {items : List (Text × Statement)}
    {rest : Text} (hitems : ItemsOf Statement.Readable true items) (hrest : Neutral rest) (s : σ) :
    replace form resolve (itemsText items ++ rest) s =
      ((askAll resolve (formQuestions form items) s).1.map
          fun answers => itemsText (formAnswered form items answers) ++ rest,
        (askAll resolve (formQuestions form items) s).2) := by
  have hpass := replace_of_scans resolve (scans_parts form hrest items true hitems) s
  simp only [textOf_parts, questions_parts, textOf_answered_parts] at hpass
  exact hpass

/-! ## What a pass leaves -/

theorem itemsOf_formAnswered (form : Form) {items : List (Text × Statement)} :
    ∀ first answers, (∀ a ∈ answers, ∀ c ∈ a, isInner c) → ItemsOf Statement.Readable first items →
      ItemsOf Statement.Readable first (formAnswered form items answers) := by
  induction items with
  | nil =>
    intro first answers _ _
    trivial
  | cons item items ih =>
    obtain ⟨t, st⟩ := item
    rintro first answers hanswers ⟨hneutral, hopens, hst, hitems⟩
    simp only [formAnswered]
    split
    · refine ⟨hneutral, hopens, ⟨hst.isHead, hst.quote, ?_⟩, ?_⟩
      · cases answers with
        | nil => exact hst.content
        | cons a answers => exact hanswers a (by simp)
      · exact ih false _ (fun a ha => hanswers a (List.mem_of_mem_tail ha)) hitems
    · exact ⟨hneutral, hopens, hst, ih false _ hanswers hitems⟩

theorem formQuestions_formAnswered {form form' : Form} (hne : form ≠ form')
    (items : List (Text × Statement)) :
    ∀ answers, formQuestions form' (formAnswered form items answers) = formQuestions form' items := by
  induction items with
  | nil =>
    intro answers
    rfl
  | cons item items ih =>
    obtain ⟨t, st⟩ := item
    intro answers
    by_cases hasks : st.asks form
    · have hform : st.head.form = form := by
        simp only [Statement.asks, Bool.and_eq_true, decide_eq_true_eq] at hasks
        exact hasks.1
      have hnot : ∀ content, Statement.asks form' { st with content := content } = false := by
        intro content
        simp [Statement.asks, hform, hne]
      rw [formAnswered, if_pos hasks]
      simp only [formQuestions, hnot, Bool.false_eq_true, if_false]
      exact ih _
    · rw [formAnswered, if_neg hasks]
      simp only [formQuestions, ih]

end Module

/-! ## Questions in order -/

/-- No answer has a quote, a line break or a semicolon in it. -/
def InnerAnswers (resolve : Resolution σ ε) : Prop :=
  ∀ spec s url s', resolve spec s = (.ok url, s') → ∀ c ∈ url, isInner c

theorem inner_of_askAll {resolve : Resolution σ ε} (hanswers : InnerAnswers resolve)
    {specs : List Text} :
    ∀ {s urls s'}, askAll resolve specs s = (.ok urls, s') → ∀ a ∈ urls, ∀ c ∈ a, isInner c := by
  induction specs with
  | nil =>
    intro s urls s' h
    simp only [askAll, Prod.mk.injEq, Except.ok.injEq] at h
    obtain ⟨rfl, -⟩ := h
    simp
  | cons spec specs ih =>
    intro s urls s' h
    obtain ⟨url, s₁, urls₁, hr, hrest, rfl⟩ := askAll_cons_eq_ok h
    intro a ha
    rcases List.mem_cons.1 ha with rfl | ha
    · exact hanswers _ _ _ _ hr
    · exact ih hrest a ha

/-! ## Both passes -/

theorem resolveAll_eq_askAll (resolve : Resolution σ ε) (hanswers : InnerAnswers resolve)
    {m : Module} (hm : m.MadeOf Statement.Readable) (s : σ) :
    resolveAll resolve m.text s =
      ((askAll resolve m.questions s).1.map fun answers => (m.answered answers).text,
        (askAll resolve m.questions s).2) := by
  unfold resolveAll Module.text Module.questions
  rw [Module.replace_module resolve .clause hm.items hm.rest, askAll_append]
  rcases hfirst : askAll resolve (Module.formQuestions .clause m.items) s with ⟨e | urls, s'⟩
  · rfl
  · have hlength := length_of_askAll hfirst
    have hinner := inner_of_askAll hanswers hfirst
    have hitems := Module.itemsOf_formAnswered .clause true urls hinner hm.items
    simp only [Except.map]
    -- the answers hold no quote, line break or semicolon, so the second pass sees a module again
    rw [Module.replace_module resolve .sideEffect hitems hm.rest,
      Module.formQuestions_formAnswered (by decide)]
    rcases askAll resolve (Module.formQuestions .sideEffect m.items) s' with ⟨e | urls', s''⟩
    · rfl
    · simp [Except.map, Module.answered, ← hlength]

/-- On a module the rewriting is exact. It asks for the bare specifiers of statements with a clause
in order and then for those of the others in order, each once, and stops at the first that fails;
if none does, the answers stand in the place of what was asked and nothing else has changed. -/
theorem resolveAll_exact (resolve : Resolution σ ε) (hanswers : InnerAnswers resolve)
    (m : Module) (hm : m.MadeOf Statement.Proper) (s : σ) :
    resolveAll resolve m.text s =
        ((askAll resolve m.questions s).1.map fun answers => (m.answered answers).text,
          (askAll resolve m.questions s).2) ∧
      ∀ code s', resolveAll resolve m.text s = (.ok code, s') →
        resolveAll (noted resolve) m.text (s, []) = (.ok code, (s', m.questions)) := by
  have hnoted : InnerAnswers (noted resolve) := by
    rintro spec ⟨s₁, log⟩ url s' h
    simp only [noted, Prod.mk.injEq] at h
    exact hanswers spec s₁ url _ (Prod.ext h.1 rfl)
  have hreadable := hm.mono fun _ => Statement.Proper.readable
  have heq := resolveAll_eq_askAll resolve hanswers hreadable s
  refine ⟨heq, ?_⟩
  intro code s' hcode
  rw [heq] at hcode
  rw [resolveAll_eq_askAll (noted resolve) hnoted hreadable]
  rcases hask : askAll resolve m.questions s with ⟨_ | answers, s₁⟩
  · simp [hask, Except.map] at hcode
  · simp only [hask, Except.map, Prod.mk.injEq, Except.ok.injEq] at hcode
    obtain ⟨rfl, rfl⟩ := hcode
    simp [askAll_noted [] hask, Except.map]

/-- A module with a binding named like the word before the literal, a clause over two lines, and
specifiers of both kinds. -/
def mixedModule : Module where
  items := [
    ([], ⟨.clause importWord [([], .mark '\x7b'), ([], .word fromWord), ([], .mark '\x7d')] [] [],
      '"', "vue".toList⟩),
    (";".toList, ⟨.clause exportWord [(" ".toList, .mark '*')] "\n".toList " ".toList,
      '\'', "lib".toList⟩),
    ("\nlet x = 1;".toList, ⟨.sideEffect [], '\'', "./side".toList⟩),
    ("\n ".toList, ⟨.sideEffect " ".toList, '"', "x".toList⟩)]
  rest := "\n".toList

theorem resolveAll_exact_mixedModule :
    let resolve : Resolution Nat Unit := fun spec n => (.ok ('/' :: spec.filter isInner), n + 1)
    InnerAnswers resolve ∧ mixedModule.MadeOf Statement.Proper ∧
      resolveAll resolve mixedModule.text 0 =
        (.ok ("import\x7bfrom\x7dfrom\"/vue\";export *\nfrom '/lib'\n".toList ++
          "let x = 1;import'./side'\n import \"/x\"\n".toList), 3) := by
  intro resolve
  have hanswers : InnerAnswers resolve := by
    intro spec n url n' h c hc
    simp only [resolve, Prod.mk.injEq, Except.ok.injEq] at h
    obtain ⟨rfl, -⟩ := h
    rcases List.mem_cons.1 hc with rfl | hc
    · decide
    · exact (List.mem_filter.1 hc).2
  have hproper : mixedModule.MadeOf Statement.Proper := by decide +kernel
  refine ⟨hanswers, hproper, ?_⟩
  rw [(resolveAll_exact resolve hanswers mixedModule hproper 0).1]
  rfl

end ModuleServer.Import
