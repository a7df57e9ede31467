import Mathlib.Data.List.Forall2
import ModuleServer.Proofs.Import.Exactness

/-!
# Comments between tokens

Comments may stand between any two tokens of a statement. The scan knows nothing of them: to it they
are part of the gap.

* `Head.Commented`: a head with comments put into its gaps.
* `Head.Visible`: what the gaps must be like for the scan to know the head, exactly
  (`isHead_iff_visible`): nothing before `from` ends a clause, and there are only blanks before the
  literal, or else another `from` with only blanks behind it.
* `segments_eq_iff`: both passes cut a module with comments as it is meant exactly if every head in
  it is visible.
-/

namespace ModuleServer.Import

open Text

/-! ## Comments -/

/-- Characters that end a line comment. -/
def isLineEnd (c : Char) : Bool :=
  c = '\n' || c = '\r' || c = '\u2028' || c = '\u2029'

/-- A comment: a block, which its first closing mark ends, or a line with its end. -/
inductive IsComment : Text → Prop where
  | block {body : Text} (hbody : ¬ ['*', '/'] <:+: body) :
      IsComment ('/' :: '*' :: body ++ ['*', '/'])
  | line {body : Text} {c : Char} (hbody : ∀ d ∈ body, isLineEnd d = false) (hc : isLineEnd c) :
      IsComment ('/' :: '/' :: body ++ [c])

/-- A gap with comments put into it. -/
inductive Commented : Text → Text → Prop where
  | nil : Commented [] []
  | keep {c : Char} {gap gap' : Text} (h : Commented gap gap') : Commented (c :: gap) (c :: gap')
  | comment {t gap gap' : Text} (ht : IsComment t) (h : Commented gap gap') :
      Commented gap (t ++ gap')

theorem IsComment.ends {t : Text} (h : IsComment t) :
    t.head? = some '/' ∧ ∃ c, t.getLast? = some c ∧ isWordChar c = false := by
  cases h with
  | @block body _ =>
    have hlast : '/' :: '*' :: body ++ ['*', '/'] = ('/' :: '*' :: body ++ ['*']) ++ ['/'] := by simp
    rw [hlast]
    exact ⟨rfl, '/', List.getLast?_concat, rfl⟩
  | @line body c _ hc =>
    refine ⟨rfl, c, List.getLast?_concat, ?_⟩
    simp only [isLineEnd, Bool.or_eq_true, decide_eq_true_eq] at hc
    rcases hc with ((rfl | rfl) | rfl) | rfl <;> decide

namespace Commented

variable {gap gap' : Text}

theorem ne_nil (h : Commented gap gap') (hne : gap ≠ []) : gap' ≠ [] := by
  induction h with
  | nil => exact absurd rfl hne
  | keep _ _ => simp
  | comment ht _ _ =>
    intro hnil
    have hhead := ht.ends.1
    rw [(List.append_eq_nil_iff.1 hnil).1] at hhead
    simp at hhead

theorem loose (h : Commented gap gap') (hblank : ∀ c ∈ gap, isBlank c) : Loose gap' := by
  induction h with
  | nil => exact ⟨by simp, by simp⟩
  | @keep c gap gap' _ ih =>
    have hc : isWordChar c = false := (classes_of_isBlank (hblank c (by simp))).2
    have hrest := ih fun d hd => hblank d (by simp [hd])
    exact hrest.behind (t := [c]) ⟨c, rfl, hc⟩ ⟨c, rfl, hc⟩
  | comment ht _ ih =>
    obtain ⟨hhead, hlast⟩ := ht.ends
    exact (ih hblank).behind ⟨'/', hhead, by decide⟩ hlast

end Commented

/-! ## Heads with comments -/

namespace Head

/-- A head with comments put into its gaps. -/
inductive Commented : Head → Head → Prop where
  | clause {keyword : Text} {tokens tokens' : List (Text × Token)}
      {beforeFrom beforeFrom' behindFrom behindFrom' : Text}
      (htokens : List.Forall₂ (fun p p' => Import.Commented p.1 p'.1 ∧ p.2 = p'.2) tokens tokens')
      (hbefore : Import.Commented beforeFrom beforeFrom')
      (hbehind : Import.Commented behindFrom behindFrom') :
      Commented (.clause keyword tokens beforeFrom behindFrom)
        (.clause keyword tokens' beforeFrom' behindFrom')
  | sideEffect {gap gap' : Text} (hgap : Import.Commented gap gap') :
      Commented (.sideEffect gap) (.sideEffect gap')

theorem Commented.form_eq {h h' : Head} (hcomm : Commented h h') : h'.form = h.form := by
  cases hcomm <;> rfl

theorem apart_of_commented {tokens tokens' : List (Text × Token)}
    (h : List.Forall₂ (fun p p' => Import.Commented p.1 p'.1 ∧ p.2 = p'.2) tokens tokens') :
    ∀ {behindWord}, Apart behindWord tokens → Apart behindWord tokens' := by
  induction h with
  | nil =>
    intro behindWord _
    trivial
  | @cons p p' tokens tokens' hp _ ih =>
    obtain ⟨gap, token⟩ := p
    obtain ⟨gap', token'⟩ := p'
    obtain ⟨hgap, rfl⟩ : Import.Commented gap gap' ∧ token = token' := hp
    rintro behindWord ⟨hne, hrest⟩
    exact ⟨fun hbehind hword => hgap.ne_nil (hne hbehind hword), ih hrest⟩

theorem map_snd_of_commented {tokens tokens' : List (Text × Token)}
    (h : List.Forall₂ (fun p p' => Import.Commented p.1 p'.1 ∧ p.2 = p'.2) tokens tokens') :
    tokens.map Prod.snd = tokens'.map Prod.snd := by
  induction h with
  | nil => rfl
  | cons hp _ ih => rw [List.map_cons, List.map_cons, hp.2, ih]

theorem Commented.proper {h h' : Head} (hcomm : Commented h h') (hproper : h.Proper) : h'.Proper := by
  cases hcomm with
  | sideEffect _ => trivial
  | @clause keyword tokens tokens' beforeFrom beforeFrom' behindFrom behindFrom' htokens hbefore _ =>
    obtain ⟨hkeyword, hne, hall, hapart⟩ := hproper
    have hwith : List.Forall₂ (fun p p' => Import.Commented p.1 p'.1 ∧ p.2 = p'.2)
        (tokens ++ [(beforeFrom, .word fromWord)]) (tokens' ++ [(beforeFrom', .word fromWord)]) :=
      List.rel_append htokens (.cons ⟨hbefore, rfl⟩ .nil)
    refine ⟨hkeyword, ?_, ?_, ?_⟩
    · intro hnil
      rw [hnil] at htokens
      exact hne (List.forall₂_nil_right_iff.1 htokens)
    · -- comments go into gaps, the tokens stay
      intro p' hp'
      have hmem := List.mem_map_of_mem (f := Prod.snd) hp'
      rw [← map_snd_of_commented htokens] at hmem
      obtain ⟨p, hp, htoken⟩ := List.mem_map.1 hmem
      rw [← htoken]
      exact hall p hp
    · exact apart_of_commented hwith hapart

theorem Commented.loose {h h' : Head} (hcomm : Commented h h')
    (hblank : ∀ gap ∈ h.gaps, ∀ c ∈ gap, isBlank c) : ∀ gap ∈ h'.gaps, Loose gap := by
  cases hcomm with
  | sideEffect _ => simp [gaps]
  | @clause keyword tokens tokens' beforeFrom beforeFrom' _ _ htokens hbefore _ =>
    have hall : ∀ {tokens tokens' : List (Text × Token)},
        List.Forall₂ (fun p p' => Import.Commented p.1 p'.1 ∧ p.2 = p'.2) tokens tokens' →
        (∀ gap ∈ tokens.map Prod.fst, ∀ c ∈ gap, isBlank c) →
        ∀ gap ∈ tokens'.map Prod.fst, Loose gap := by
      intro tokens tokens' htokens hblank
      induction htokens with
      | nil => simp
      | @cons p p' tokens tokens' hp _ ih =>
        intro gap hgap
        rcases List.mem_cons.1 hgap with rfl | hgap
        · exact hp.1.loose (hblank p.1 (by simp))
        · exact ih (fun gap hgap => hblank gap (List.mem_cons_of_mem _ hgap)) gap hgap
    intro gap hgap
    rcases List.mem_append.1 hgap with hgap | hgap
    · exact hall htokens (fun gap hgap => hblank gap (List.mem_append_left _ hgap)) gap hgap
    · rw [List.mem_singleton.1 hgap]
      exact hbefore.loose (hblank beforeFrom (by simp [gaps]))

/-! ## Heads that the scan knows -/

/-- What may stand between `from` and a literal: blanks, or text that goes on with the clause up to
another `from` and blanks. -/
def Leads (gap : Text) : Prop :=
  (∀ c ∈ gap, isBlank c) ∨
    ∃ front blanks, gap = front ++ fromWord ++ blanks ∧ (∀ c ∈ front, endsClause c = false) ∧
      (∃ c, front.getLast? = some c ∧ isWordChar c = false) ∧ ∀ c ∈ blanks, isBlank c

/-- Nothing in the gaps before `from` ends a clause, and the gap before the literal leads to it. -/
def Visible (h : Head) : Prop :=
  (∀ gap ∈ h.gaps, ∀ c ∈ gap, endsClause c = false) ∧
    match h with
    | .clause _ _ _ behindFrom => Leads behindFrom
    | .sideEffect gap => ∀ c ∈ gap, isBlank c

/-- Of two occurrences of `from`, one of them with blanks alone behind it, the other comes first. -/
theorem eq_of_from {x y gap blanks : Text} (h : x ++ (fromWord ++ gap) = y ++ (fromWord ++ blanks))
    (hblanks : ∀ c ∈ blanks, isBlank c) :
    (x = y ∧ gap = blanks) ∨
      ∃ front, y = x ++ (fromWord ++ front) ∧ gap = front ++ (fromWord ++ blanks) := by
  rcases List.append_eq_append_iff.1 h with ⟨z, rfl, hz⟩ | ⟨z, rfl, hz⟩
  · -- the word cannot overlap itself
    rcases z with _ | ⟨a, _ | ⟨b, _ | ⟨c, _ | ⟨d, front⟩⟩⟩⟩
    · exact Or.inl ⟨by simp, by simpa [fromWord] using hz⟩
    · simp [fromWord] at hz
    · simp [fromWord] at hz
    · simp [fromWord] at hz
    · right
      simp only [fromWord, List.cons_append, List.nil_append, List.cons.injEq] at hz
      obtain ⟨rfl, rfl, rfl, rfl, rfl⟩ := hz
      exact ⟨front, rfl, rfl⟩
  · rcases z with _ | ⟨a, _ | ⟨b, _ | ⟨c, _ | ⟨d, front⟩⟩⟩⟩
    · exact Or.inl ⟨by simp, by simpa [fromWord] using hz.symm⟩
    · simp [fromWord] at hz
    · simp [fromWord] at hz
    · simp [fromWord] at hz
    · have hm : 'm' ∈ blanks := by
        simp only [fromWord, List.cons_append, List.nil_append, List.cons.injEq] at hz
        rw [hz.2.2.2.2]
        simp
      exact absurd (hblanks 'm' hm) (by decide)

theorem free_gaps {keyword : Text} {tokens : List (Text × Token)} {beforeFrom behindFrom : Text}
    (hfree : ∀ c ∈ tokensText tokens ++ beforeFrom, endsClause c = false) :
    ∀ gap ∈ gaps (.clause keyword tokens beforeFrom behindFrom), ∀ c ∈ gap, endsClause c = false := by
  intro gap hgap c hc
  apply hfree
  rcases List.mem_append.1 hgap with hgap | hgap
  · obtain ⟨p, hp, rfl⟩ := List.mem_map.1 hgap
    exact List.mem_append_left _ (List.mem_flatMap.2 ⟨p, hp, List.mem_append_left _ hc⟩)
  · rw [List.mem_singleton.1 hgap] at hc
    exact List.mem_append_right _ hc

theorem visible_of_isHead {h : Head} (hproper : h.Proper) (hhead : IsHead h.form h.text) :
    h.Visible := by
  generalize htext : h.text = t at hhead
  cases h with
  | sideEffect gap =>
    cases hhead with
    | sideEffect hgap =>
      obtain rfl := List.append_cancel_left htext
      exact ⟨by simp [gaps], hgap⟩
  | clause keyword tokens beforeFrom behindFrom =>
    cases hhead with
    | @clause word between blanks hword hfree hfirst hlast hblanks =>
      -- both keywords have six letters, so the texts can be cut behind them
      have hlength : keyword.length = word.length := by
        rcases hproper.1 with rfl | rfl <;> rcases hword with rfl | rfl <;> decide
      simp only [text, List.append_assoc] at htext
      have hrest := (List.append_inj htext hlength).2
      rw [← List.append_assoc] at hrest
      rcases eq_of_from hrest hblanks with ⟨rfl, rfl⟩ | ⟨front, rfl, rfl⟩
      · exact ⟨free_gaps hfree, Or.inl hblanks⟩
      · refine ⟨free_gaps fun c hc => hfree c (List.mem_append_left _ hc), Or.inr ?_⟩
        refine ⟨front, blanks, by simp, ?_, ?_, hblanks⟩
        · intro c hc
          exact hfree c (List.mem_append_right _ (List.mem_append_right _ hc))
        · -- the second word does not touch the first
          obtain ⟨c, hc, hnot⟩ := hlast
          rcases List.eq_nil_or_concat front with rfl | ⟨front, d, rfl⟩
          · rw [List.append_nil, List.getLast?_append] at hc
            obtain rfl : 'm' = c := by simpa [fromWord] using hc
            exact absurd hnot (by decide)
          · obtain rfl : d = c := by simpa using hc
            exact ⟨d, by simp, hnot⟩

theorem Visible.isHead {h : Head} (hvisible : h.Visible) (hproper : h.Proper)
    (hloose : ∀ gap ∈ h.gaps, Loose gap) : IsHead h.form h.text := by
  obtain ⟨hfree, hlead⟩ := hvisible
  have hquiet : ∀ gap ∈ h.gaps, Quiet gap := fun gap hgap => ⟨hloose gap hgap, hfree gap hgap⟩
  cases h with
  | sideEffect gap => exact Head.isHead hproper hquiet hlead
  | clause keyword tokens beforeFrom behindFrom =>
    rcases hlead with hblank | ⟨front, blanks, rfl, hfront, hlast, hblanks⟩
    · exact Head.isHead hproper hquiet hblank
    · -- the first `from` is part of the clause, and the second one ends it
      obtain ⟨hkeyword, hne, htokens, hapart⟩ := hproper
      have hbefore : ∀ gap ∈ tokens.map Prod.fst, Quiet gap :=
        fun gap hgap => hquiet gap (List.mem_append_left _ hgap)
      have htext : text (.clause keyword tokens beforeFrom (front ++ fromWord ++ blanks)) =
          keyword ++ (tokensText tokens ++ (beforeFrom ++ fromWord ++ front)) ++ fromWord ++
            blanks := by simp [text]
      rw [htext]
      refine .clause hkeyword ?_ ?_ ?_ hblanks
      · intro c hc
        simp only [List.mem_append] at hc
        rcases hc with hc | (hc | hc) | hc
        · exact free_tokensText htokens hbefore c hc
        · exact (hquiet beforeFrom (by simp [gaps])).free c hc
        · exact (classes_of_letter (Or.inr (Or.inr hc))).1
        · exact hfront c hc
      · exact first_tokensText hne htokens (fun gap hgap => (hbefore gap hgap).toLoose) hapart _
      · obtain ⟨c, hc, hnot⟩ := hlast
        refine ⟨c, ?_, hnot⟩
        rw [List.getLast?_append, List.getLast?_append, hc]
        rfl

/-- The scan knows a head exactly if it is visible. -/
theorem isHead_iff_visible {h : Head} (hproper : h.Proper) (hloose : ∀ gap ∈ h.gaps, Loose gap) :
    IsHead h.form h.text ↔ h.Visible :=
  ⟨visible_of_isHead hproper, fun hvisible => hvisible.isHead hproper hloose⟩

end Head

/-! ## Modules with comments -/

/-- A statement with comments put between its tokens. -/
structure Statement.Commented (st st' : Statement) : Prop where
  head : Head.Commented st.head st'.head
  quote : st'.quote = st.quote
  content : st'.content = st.content

theorem Statement.Commented.isHead_iff {st st' : Statement} (hcomm : Statement.Commented st st')
    (hst : st.Proper) : IsHead st'.head.form st'.head.text ↔ st'.head.Visible :=
  Head.isHead_iff_visible (hcomm.head.proper hst.head) (hcomm.head.loose hst.gaps)

namespace Module

/-- Statements with comments put between their tokens. -/
abbrev ItemsCommented (items items' : List (Text × Statement)) : Prop :=
  List.Forall₂ (fun i i' => i.1 = i'.1 ∧ Statement.Commented i.2 i'.2) items items'

/-- A module with comments put between the tokens of its statements. -/
structure Commented (m m' : Module) : Prop where
  items : ItemsCommented m.items m'.items
  rest : m'.rest = m.rest

theorem ItemsCommented.formQuestions_eq (form : Form) {items items' : List (Text × Statement)}
    (h : ItemsCommented items items') : formQuestions form items' = formQuestions form items := by
  induction h with
  | nil => rfl
  | @cons i i' items items' hi _ ih =>
    have hasks : i'.2.asks form = i.2.asks form := by
      simp only [Statement.asks, hi.2.head.form_eq, hi.2.content]
    simp only [formQuestions, hasks, hi.2.content, ih]

theorem ItemsCommented.isHead_iff {items items' : List (Text × Statement)}
    (h : ItemsCommented items items') :
    ∀ first, ItemsOf Statement.Proper first items →
      ((∀ item ∈ items', IsHead item.2.head.form item.2.head.text) ↔
        ∀ item ∈ items', item.2.head.Visible) := by
  induction h with
  | nil =>
    intro first _
    simp
  | @cons i i' items items' hi _ ih =>
    rintro first ⟨-, -, hst, hitems⟩
    simp only [List.forall_mem_cons, hi.2.isHead_iff hst, ih false hitems]

theorem ItemsCommented.readable {items items' : List (Text × Statement)}
    (h : ItemsCommented items items') :
    ∀ first, ItemsOf Statement.Proper first items →
      (∀ item ∈ items', IsHead item.2.head.form item.2.head.text) →
      ItemsOf Statement.Readable first items' := by
  induction h with
  | nil =>
    intro first _ _
    trivial
  | @cons i i' items items' hi _ ih =>
    obtain ⟨t, st⟩ := i
    obtain ⟨t', st'⟩ := i'
    obtain ⟨rfl, hcomm⟩ : t = t' ∧ Statement.Commented st st' := hi
    rintro first ⟨hneutral, hopens, hst, hitems⟩ hheads
    have hrest := ih false hitems fun item hitem => hheads item (by simp [hitem])
    refine ⟨hneutral, hopens, ⟨hheads (t, st') (by simp), ?_, ?_⟩, hrest⟩
    · rw [hcomm.quote]
      exact hst.quote
    · rw [hcomm.content]
      exact hst.content

theorem Commented.readable {m m' : Module} (hcomm : Commented m m') (hm : m.MadeOf Statement.Proper)
    (hvisible : ∀ item ∈ m'.items, item.2.head.Visible) : m'.MadeOf Statement.Readable := by
  have hheads := (hcomm.items.isHead_iff true hm.items).2 hvisible
  refine ⟨hcomm.items.readable true hm.items hheads, ?_⟩
  rw [hcomm.rest]
  exact hm.rest

theorem segments_of_mem {rest : Text} {items : List (Text × Statement)} :
    ∀ item ∈ items, ∃ segs segs',
      (parts item.2.head.form rest items).flatMap Part.segments =
        segs ++ .verbatim (item.2.head.text ++ [item.2.quote]) ::
          .specifier item.2.content :: segs' := by
  induction items with
  | nil => simp
  | cons i items ih =>
    obtain ⟨t, st⟩ := i
    intro item hitem
    rcases List.mem_cons.1 hitem with rfl | hitem
    · exact ⟨t.map fun c => .verbatim [c], _, by simp [parts, Part.segments]; rfl⟩
    · obtain ⟨segs, segs', h⟩ := ih item hitem
      rw [parts]
      split
      · refine ⟨Part.segments (.plain t) ++ Part.segments (.literal (st.head.text ++ [st.quote])
          st.content st.quote) ++ segs, segs', ?_⟩
        rw [List.flatMap_cons, List.flatMap_cons, h]
        simp only [List.append_assoc]
      · refine ⟨Part.segments (.plain t) ++ Part.segments (.plain st.text) ++ segs, segs', ?_⟩
        rw [List.flatMap_cons, List.flatMap_cons, h]
        simp only [List.append_assoc]

/-- Both passes cut a module with comments as it is meant exactly if every head is visible. -/
theorem segments_eq_iff {m m' : Module} (hm : m.MadeOf Statement.Proper) (hcomm : Commented m m') :
    (∀ form, segments form m'.text = (parts form m'.rest m'.items).flatMap Part.segments) ↔
      ∀ item ∈ m'.items, item.2.head.Visible := by
  constructor
  · intro hsegments
    apply (hcomm.items.isHead_iff true hm.items).1
    intro item hitem
    obtain ⟨segs, segs', hcut⟩ := segments_of_mem item hitem
    rw [← hsegments] at hcut
    obtain ⟨after, quote, ⟨head, hhead, hbefore⟩, -, -⟩ := found_of_segmentsFrom hcut
    have htext := (List.append_inj' hbefore rfl).1
    rw [htext]
    exact hhead
  · intro hvisible form
    have hreadable := hcomm.readable hm hvisible
    have hscans := scans_parts form hreadable.rest m'.items true hreadable.items
    rw [segments, text, ← textOf_parts form, segmentsFrom_of_scans hscans]

/-- Comments that leave every head visible change nothing: the same specifiers are asked for, and the
answers stand in the place of the same literals. -/
theorem resolveAll_commented {σ ε : Type} (resolve : Resolution σ ε) (hanswers : InnerAnswers resolve)
    {m m' : Module} (hm : m.MadeOf Statement.Proper) (hcomm : Commented m m')
    (hvisible : ∀ item ∈ m'.items, item.2.head.Visible) (s : σ) :
    resolveAll resolve m'.text s =
      ((askAll resolve m.questions s).1.map fun answers => (m'.answered answers).text,
        (askAll resolve m.questions s).2) := by
  have hquestions : m'.questions = m.questions := by
    simp only [questions, hcomm.items.formQuestions_eq]
  rw [← hquestions]
  exact resolveAll_eq_askAll resolve hanswers (hcomm.readable hm hvisible) s

end Module

end ModuleServer.Import
