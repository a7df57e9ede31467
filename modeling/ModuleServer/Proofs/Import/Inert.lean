import ModuleServer.Proofs.Import.Comment
import ModuleServer.Proofs.Import.Mark

/-!
# Inert text

Comments, template literals and strings are meant to be inert: nothing in them is asked for or
changed. The scan does not know of them, so this holds as far as nothing in them looks like a
statement.

* `untouched_iff_sheltered`: inert text is untouched, whatever the resolution, exactly if no pass
  finds a bare specifier that reaches into it.
* `inert_iff`: this, together with the exact condition under which comments between the tokens of
  statements change nothing.
-/

namespace ModuleServer.Import

open Text

namespace Marked

/-- Whatever the resolution, it is asked for nothing that has a marked character, and the marked
characters are all there in the result. -/
def Untouched (m : Marked) : Prop :=
  ∀ (σ ε : Type) (resolve : Resolution σ ε) (s : σ),
    (∀ spec ∈ (resolveAll (noting resolve) m (s, [])).2.2, marked spec = []) ∧
      ∀ m', (resolveAll (noting resolve) m (s, [])).1 = .ok m' → marked m' = marked m

/-- No bare specifier that a pass finds has a marked character. -/
def Clear (form : Form) (m : Marked) : Prop :=
  ∀ parts, Traces form m parts → ∀ spec ∈ Part.questions isBare parts, marked spec = []

/-- Both passes are clear, the second one whatever the answers to the first. -/
def Sheltered (m : Marked) : Prop :=
  m.Clear .clause ∧ ∀ parts (answers : List Text), Traces .clause m parts →
    answers.length = (Part.questions isBare parts).length →
      Clear .sideEffect (Part.textOf (Part.answered isBare parts (answers.map unmarked)))

theorem marked_answered (parts : List (Part (Char × Bool))) :
    (∀ spec ∈ Part.questions isBare parts, marked spec = []) →
      ∀ answers : List Text,
        marked (Part.textOf (Part.answered isBare parts (answers.map unmarked))) =
          marked (Part.textOf parts) := by
  induction parts with
  | nil =>
    intro _ answers
    rfl
  | cons part parts ih =>
    intro hclear answers
    cases part with
    | plain t =>
      have hrest := ih hclear answers
      simp only [Part.answered, Part.textOf_cons, marked_append, hrest, Part.text]
    | literal before content quote =>
      by_cases hbare : isBare content
      · -- the content goes and an answer comes, and neither has a mark
        simp only [Part.questions, if_pos hbare] at hclear
        have hrest := ih fun spec hspec => hclear spec (List.mem_cons_of_mem _ hspec)
        have hcontent : marked content = [] := hclear content (by simp)
        simp only [Part.answered, if_pos hbare, Part.textOf_cons, marked_append, Part.text]
        cases answers with
        | nil =>
          have hnil := hrest []
          rw [List.map_nil] at hnil
          simp [hnil]
        | cons answer answers => simp [hrest answers, hcontent]
      · simp only [Part.questions, if_neg hbare] at hclear
        have hrest := ih hclear answers
        simp only [Part.answered, if_neg hbare, Part.textOf_cons, marked_append, hrest, Part.text]

/-- One pass that is clear. -/
theorem replace_untouched {σ ε : Type} (resolve : Resolution σ ε) {form : Form} {m : Marked}
    (hclear : m.Clear form) {s : σ} {log : List Marked} (hlog : ∀ spec ∈ log, marked spec = []) :
    (∀ spec ∈ (replace form (noting resolve) m (s, log)).2.2, marked spec = []) ∧
      ∀ m', (replace form (noting resolve) m (s, log)).1 = .ok m' → marked m' = marked m := by
  obtain ⟨parts, hparts⟩ := exists_traces form m
  have hquestions := hclear parts hparts
  constructor
  · intro spec hspec
    rw [replace_of_traces _ hparts] at hspec
    rcases mem_noted spec hspec with h | h
    · exact hlog spec h
    · exact hquestions spec h
  · intro m' hm'
    have hrun : replace form (noting resolve) m (s, log) =
        (.ok m', (replace form (noting resolve) m (s, log)).2) := Prod.ext hm' rfl
    obtain ⟨answers, -, rfl⟩ := replace_eq_ok hparts hrun
    rw [marked_answered parts hquestions, hparts.text]

theorem untouched_of_sheltered {m : Marked} (h : m.Sheltered) : m.Untouched := by
  intro σ ε resolve s
  obtain ⟨hfirst, hsecond⟩ := h
  have hnone : ∀ spec ∈ ([] : List Marked), marked spec = [] := by simp
  have hpass := replace_untouched resolve hfirst (s := s) hnone
  unfold resolveAll
  rcases hreplace : replace .clause (noting resolve) m (s, []) with ⟨_ | m₁, s₁, log⟩
  · rw [hreplace] at hpass
    exact ⟨hpass.1, by simp⟩
  · rw [hreplace] at hpass
    -- the second pass is given the text that some answers to the first make
    obtain ⟨parts, hparts⟩ := exists_traces .clause m
    obtain ⟨answers, hlength, rfl⟩ := replace_eq_ok hparts hreplace
    have hclear := hsecond parts answers hparts hlength
    have hpass' := replace_untouched resolve hclear (s := s₁) hpass.1
    constructor
    · exact hpass'.1
    · intro m' hm'
      rw [hpass'.2 m' hm', hpass.2 _ rfl]

/-- A resolution that gives certain answers one after the other, and empty ones after these. -/
def script : Resolution (List Text) Empty :=
  fun _ answers => (.ok (answers.headD []), answers.tail)

theorem askAll_script (specs : List Marked) (more : List Text) :
    ∀ answers : List Text, answers.length = specs.length →
      askAll (fun spec => script (text spec)) specs (answers ++ more) = (.ok answers, more) := by
  induction specs with
  | nil =>
    intro answers hlength
    rw [List.length_eq_zero_iff.1 hlength]
    rfl
  | cons spec specs ih =>
    intro answers hlength
    cases answers with
    | nil => simp at hlength
    | cons answer answers =>
      have hrest := ih answers (by simpa using hlength)
      simp only [askAll, script, List.cons_append, List.headD_cons, List.tail_cons] at hrest ⊢
      rw [hrest]
      rfl

theorem sheltered_of_untouched {m : Marked} (h : m.Untouched) : m.Sheltered := by
  have hboth : ∀ parts (answers : List Text), Traces .clause m parts →
      answers.length = (Part.questions isBare parts).length → ∀ parts',
      Traces .sideEffect (Part.textOf (Part.answered isBare parts (answers.map unmarked))) parts' →
      ∀ spec ∈ Part.questions isBare parts ++ Part.questions isBare parts', marked spec = [] := by
    intro parts answers hparts hlength parts' hparts' spec hspec
    -- the script answers both passes, so that all questions of both are asked
    let empties : List Text := (Part.questions isBare parts').map fun _ => []
    have hask := askAll_noted [] (askAll_script (Part.questions isBare parts) empties answers hlength)
    have hask' := askAll_noted (Part.questions isBare parts)
      (askAll_script (Part.questions isBare parts') [] empties (by simp [empties]))
    rw [List.nil_append] at hask
    rw [List.append_nil] at hask'
    have hfirst : replace .clause (noting script) m (answers ++ empties, []) =
        (.ok (Part.textOf (Part.answered isBare parts (answers.map unmarked))),
          (empties, Part.questions isBare parts)) := by
      rw [replace_of_traces _ hparts, noting, hask]
      rfl
    have hsecond := replace_of_traces (noting script) hparts' (empties, Part.questions isBare parts)
    rw [noting, hask'] at hsecond
    have hrun := (h (List Text) Empty script (answers ++ empties)).1 spec
    apply hrun
    unfold resolveAll
    rw [hfirst]
    change spec ∈ (replace .sideEffect (noting script) _ _).2.2
    rw [noting, hsecond]
    exact hspec
  refine ⟨?_, ?_⟩
  · intro parts hparts spec hspec
    let empties : List Text := (Part.questions isBare parts).map fun _ => []
    obtain ⟨parts', hparts'⟩ := exists_traces .sideEffect
      (Part.textOf (Part.answered isBare parts (empties.map unmarked)))
    exact hboth parts empties hparts (by simp [empties]) parts' hparts' spec
      (List.mem_append_left _ hspec)
  · intro parts answers hparts hlength parts' hparts' spec hspec
    exact hboth parts answers hparts hlength parts' hparts' spec (List.mem_append_right _ hspec)

/-- Inert text is untouched exactly if no bare specifier that is found reaches into it. -/
theorem untouched_iff_sheltered (m : Marked) : m.Untouched ↔ m.Sheltered :=
  ⟨sheltered_of_untouched, untouched_of_sheltered⟩

end Marked

/-- Inert text is inert exactly as far as nothing in it looks like a statement. A code can be rewritten
with marks on its inert characters, which changes nothing else; none of these is asked for or
changed by any resolution exactly if no bare specifier that a pass finds reaches into them. Comments
between the tokens of statements leave both passes cutting a module as it is meant exactly if every
head is visible; and then the same specifiers are asked for as without the comments, and the answers
stand in the place of the same literals. -/
theorem inert_iff (code : Marked) {m m' : Module} (hm : m.MadeOf Statement.Proper)
    (hcomm : Module.Commented m m') :
    (∀ (σ ε : Type) (resolve : Resolution σ ε) (s : σ),
      ((code.resolveAll (Marked.noting resolve) (s, [])).1.map Marked.text,
        (code.resolveAll (Marked.noting resolve) (s, [])).2.1) = resolveAll resolve code.text s) ∧
    (code.Untouched ↔ code.Sheltered) ∧
    ((∀ form, segments form m'.text =
        (Module.parts form m'.rest m'.items).flatMap Part.segments) ↔
      ∀ item ∈ m'.items, item.2.head.Visible) ∧
    ((∀ item ∈ m'.items, item.2.head.Visible) →
      ∀ (σ ε : Type) (resolve : Resolution σ ε), InnerAnswers resolve → ∀ s : σ,
        resolveAll resolve m'.text s =
          ((askAll resolve m.questions s).1.map fun answers => (m'.answered answers).text,
            (askAll resolve m.questions s).2)) := by
  refine ⟨?_, Marked.untouched_iff_sheltered code, Module.segments_eq_iff hm hcomm, ?_⟩
  · intro σ ε resolve s
    exact Marked.resolveAll_text resolve code s
  · intro hvisible σ ε resolve hanswers s
    exact Module.resolveAll_commented resolve hanswers hm hcomm hvisible s

/-- A string that looks like a statement behind a semicolon. -/
def hiddenImport : Marked :=
  Marked.unmarked "const s = \"".toList ++ "; import a from 'b'".toList.map (fun c => (c, true)) ++
    Marked.unmarked "\"\n".toList

/-- A statement with a gap of its own before the literal. -/
def lateGap (gap : Text) : Module where
  items := [([], ⟨.clause importWord [([' '], .word ['a'])] [' '] gap, '"', ['x']⟩)]
  rest := []

theorem inert_iff_hiddenImport :
    ¬ hiddenImport.Sheltered ∧
      let late := lateGap [' ', '/', '*', 'c', '*', '/']
      (lateGap [' ']).MadeOf Statement.Proper ∧ Module.Commented (lateGap [' ']) late ∧
        ¬ ∀ form, segments form late.text =
          (Module.parts form late.rest late.items).flatMap Part.segments := by
  have hproper : (lateGap [' ']).MadeOf Statement.Proper := by decide +kernel
  have hblock : IsComment ['/', '*', 'c', '*', '/'] := .block (show ¬ ['*', '/'] <:+: ['c'] by decide)
  have hgap : Commented [' '] [' '] := .keep .nil
  have hlate : Commented [' '] [' ', '/', '*', 'c', '*', '/'] := .keep (.comment hblock .nil)
  have hcomm : Module.Commented (lateGap [' ']) (lateGap [' ', '/', '*', 'c', '*', '/']) :=
    ⟨.cons ⟨rfl, .clause (.cons ⟨hgap, rfl⟩ .nil) hgap hlate, rfl, rfl⟩ .nil, rfl⟩
  refine ⟨?_, hproper, hcomm, ?_⟩
  · intro h
    let echo : Resolution Unit Unit := fun spec _ => (.ok spec, ())
    have hasked := ((inert_iff hiddenImport hproper hcomm).2.1.2 h Unit Unit echo ()).1 [('b', true)]
    have hmem : [('b', true)] ∈ (hiddenImport.resolveAll (Marked.noting echo) ((), [])).2.2 := by
      decide +kernel
    exact absurd (hasked hmem) (by decide)
  · intro hsegments
    have hvisible := (inert_iff hiddenImport hproper hcomm).2.2.1.1 hsegments _ List.mem_cons_self
    rcases hvisible.2 with hblank | ⟨front, blanks, heq, -⟩
    · exact absurd (hblank '/' (by simp)) (by decide)
    · have hmem : 'f' ∈ [' ', '/', '*', 'c', '*', '/'] := by
        rw [heq]
        simp [fromWord]
      exact absurd hmem (by decide)

end ModuleServer.Import
