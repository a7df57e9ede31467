import ModuleServer.Proofs.Import.Pass
import ModuleServer.Proofs.Text.Cut

/-!
# The frame of the rewriting

What the rewriting may change, and what it may ask, on every text: nothing here takes the code to be
a module.

* `isBare_iff`: the questions are bare specifiers, spelled out.
* `Replaces`: a text comes from another by putting answers in the place of contents of quoted
  literals that the word of a form opens, from left to right, none over another.
* `Ends`: the calls of a run all have an answer, or the last one has the error that the run ends with.
* `resolveAll_frame`: the rewriting does two such steps, one for each form, with the answers in the
  order of the calls.
-/

namespace ModuleServer.Import

open Text

variable {σ ε α β : Type}

/-! ## Calls -/

/-- What a specifier names a package by: there is something in it, it starts with neither a dot nor
a slash, and it is no address. -/
theorem isBare_iff {spec : Text} : Specifier.isBare spec ↔
    spec ≠ [] ∧ spec.head? ≠ some '.' ∧ spec.head? ≠ some '/' ∧ ¬ "://".toList <:+: spec ∧
      ¬ "data:".toList <+: spec := by
  have hscheme : has "://".toList spec ↔ "://".toList <:+: spec := has_iff_isInfix (by decide)
  have hdata : startsWith "data:".toList spec ↔ "data:".toList <+: spec := by
    rw [startsWith, Option.isSome_iff_exists]
    constructor
    · rintro ⟨rest, h⟩
      exact ⟨rest, (after?_eq_some.1 h).symm⟩
    · rintro ⟨rest, h⟩
      exact ⟨rest, after?_eq_some.2 h.symm⟩
  rw [← hscheme, ← hdata]
  simp [Specifier.isBare, and_assoc]

/-- A resolution that keeps a record of its calls and of their outcomes. -/
def recorded (resolve : Resolution σ ε) : Resolution (σ × List (Text × Except ε Text)) ε :=
  fun spec s =>
    ((resolve spec s.1).1, (resolve spec s.1).2, s.2 ++ [(spec, (resolve spec s.1).1)])

/-- The call that was answered. -/
def answeredCall (p : Text × Text) : Text × Except ε Text :=
  (p.1, .ok p.2)

/-- How calls end: with an error, which is that of the last call and of no call before it, or without
one. -/
def Ends (calls : List (Text × Except ε Text)) : Except ε α → Prop
  | .ok _ => ∃ pairs : List (Text × Text), calls = pairs.map answeredCall
  | .error e => ∃ (pairs : List (Text × Text)) (spec : Text),
      calls = pairs.map answeredCall ++ [(spec, .error e)]

theorem Ends.map {calls : List (Text × Except ε Text)} {result : Except ε α}
    (h : Ends calls result) (f : α → β) : Ends calls (result.map f) := by
  cases result with
  | ok a => exact h
  | error e => exact h

/-- Calls that were answered may come before. -/
theorem Ends.answered {calls : List (Text × Except ε Text)} {result : Except ε α}
    (h : Ends calls result) (earlier : List (Text × Text)) :
    Ends (earlier.map answeredCall ++ calls) result := by
  cases result with
  | ok a =>
    obtain ⟨pairs, rfl⟩ := h
    exact ⟨earlier ++ pairs, by rw [List.map_append]⟩
  | error e =>
    obtain ⟨pairs, spec, rfl⟩ := h
    exact ⟨earlier ++ pairs, spec, by rw [List.map_append, List.append_assoc]⟩

/-- Questions that are recorded are the same questions, asked in order; the record ends as they do. -/
theorem askAll_recorded (resolve : Resolution σ ε) (specs : List Text) :
    ∀ s log, ∃ calls,
      askAll (recorded resolve) specs (s, log) =
          ((askAll resolve specs s).1, ((askAll resolve specs s).2, log ++ calls)) ∧
        (∀ call ∈ calls, call.1 ∈ specs) ∧ Ends calls (askAll resolve specs s).1 ∧
        ∀ urls, (askAll resolve specs s).1 = .ok urls →
          urls.length = specs.length ∧ calls = (specs.zip urls).map answeredCall := by
  induction specs with
  | nil =>
    intro s log
    refine ⟨[], by simp [askAll], by simp, ⟨[], rfl⟩, ?_⟩
    intro urls h
    obtain rfl : [] = urls := Except.ok.inj h
    exact ⟨rfl, rfl⟩
  | cons spec specs ih =>
    intro s log
    rcases hr : resolve spec s with ⟨e | url, s₁⟩
    · refine ⟨[(spec, .error e)], by simp [askAll, recorded, hr], by simp, ?_, ?_⟩
      · simp only [askAll, hr]
        exact ⟨[], spec, rfl⟩
      · intro urls h
        simp only [askAll, hr] at h
        cases h
    · obtain ⟨calls, heq, hmem, hends, hok⟩ := ih s₁ (log ++ [(spec, .ok url)])
      refine ⟨(spec, .ok url) :: calls, ?_, ?_, ?_, ?_⟩
      · simp [askAll, recorded, hr, heq]
      · intro call hcall
        rcases List.mem_cons.1 hcall with rfl | hcall
        · exact List.mem_cons_self
        · exact List.mem_cons_of_mem _ (hmem call hcall)
      · simp only [askAll, hr]
        exact (hends.answered [(spec, url)]).map _
      · intro urls h
        rcases hrest : (askAll resolve specs s₁).1 with e | urls₁
        · simp [askAll, hr, hrest, Except.map] at h
        · simp only [askAll, hr, hrest, Except.map, Except.ok.injEq] at h
          subst h
          obtain ⟨hlength, rfl⟩ := hok urls₁ hrest
          exact ⟨by simp [hlength], rfl⟩

/-! ## What a step replaces -/

/-- The word that the literal of a form stands behind. -/
def Form.word : Form → Text
  | .clause => fromWord
  | .sideEffect => importWord

/-- A text that ends with the opening quote of a literal, which stands behind the word of the form
and blanks. -/
def OpensLiteral (form : Form) (quote : Char) (t : Text) : Prop :=
  isQuote quote ∧ ∃ front gap, t = front ++ form.word ++ gap ++ [quote] ∧ ∀ c ∈ gap, isBlank c

/-- One text comes from another by replacing contents of literals, from left to right, each by what
it is paired with. A literal closes on its line, and the next one lies behind it as a whole. -/
inductive Replaces (form : Form) : Text → List (Text × Text) → Text → Prop
  | rest (code : Text) : Replaces form code [] code
  | literal {front content url rest rest' : Text} {quote : Char} {pairs : List (Text × Text)}
      (hopens : OpensLiteral form quote front) (hcloses : ∀ c ∈ content, c ≠ quote ∧ c ≠ '\n')
      (hrest : Replaces form rest pairs rest') :
      Replaces form (front ++ content ++ quote :: rest) ((content, url) :: pairs)
        (front ++ url ++ quote :: rest')

/-- What stands before a text stays. -/
theorem Replaces.behind {form : Form} {code code' : Text} {pairs : List (Text × Text)}
    (h : Replaces form code pairs code') (t : Text) :
    Replaces form (t ++ code) pairs (t ++ code') := by
  cases h with
  | rest => exact .rest _
  | @literal before content url rest rest' quote pairs hopens hcloses hrest =>
    have hopens' : OpensLiteral form quote (t ++ before) := by
      obtain ⟨hquote, front, gap, rfl, hgap⟩ := hopens
      exact ⟨hquote, t ++ front, gap, by simp only [List.append_assoc], hgap⟩
    have hliteral : Replaces form (t ++ before ++ content ++ quote :: rest)
        ((content, url) :: pairs) (t ++ before ++ url ++ quote :: rest') :=
      .literal hopens' hcloses hrest
    simp only [List.append_assoc] at hliteral ⊢
    exact hliteral

/-- The head of a statement ends with the word of its form, up to blanks. -/
theorem Literal.Found.opensLiteral {form : Form} {l : Literal} (h : l.Found form) :
    OpensLiteral form l.quote l.before := by
  obtain ⟨⟨head, hhead, hbefore⟩, hquote, -⟩ := h
  refine ⟨hquote, ?_⟩
  cases hhead with
  | clause _ _ _ _ hgap => exact ⟨_, _, hbefore, hgap⟩
  | sideEffect hgap => exact ⟨[], _, by rw [hbefore]; rfl, hgap⟩

/-- The answers to the questions of a pass stand in the place of contents of literals. -/
theorem replaces_answered {form : Form} {atStart : Bool} {parts : List (Part Char)}
    (h : Scans form atStart parts) : ∀ answers : List Text,
      answers.length = (Part.questions Specifier.isBare parts).length →
        Replaces form (Part.textOf parts) ((Part.questions Specifier.isBare parts).zip answers)
          (Part.textOf (Part.answered Specifier.isBare parts answers)) := by
  induction h with
  | nil =>
    intro answers _
    exact .rest []
  | plain _ _ ih =>
    intro answers hlength
    exact (ih answers hlength).behind _
  | @literal before content quote parts hfound _ ih =>
    intro answers hlength
    have hcode : Part.textOf (.literal before content quote :: parts) =
        before ++ content ++ quote :: Part.textOf parts := by
      simp [Part.text]
    by_cases hbare : Specifier.isBare content
    · rw [Part.questions, if_pos hbare] at hlength ⊢
      cases answers with
      | nil => simp at hlength
      | cons url answers =>
        have hrest := ih answers (Nat.succ.inj hlength)
        have hliteral : Replaces form (before ++ content ++ quote :: Part.textOf parts)
            ((content, url) :: (Part.questions Specifier.isBare parts).zip answers)
            (before ++ url ++ quote :: Part.textOf (Part.answered Specifier.isBare parts answers)) :=
          .literal hfound.opensLiteral hfound.closes hrest
        rw [hcode, Part.answered, if_pos hbare]
        simpa [Part.text] using hliteral
    · rw [Part.questions, if_neg hbare] at hlength ⊢
      have hrest := (ih answers hlength).behind (before ++ content ++ [quote])
      rw [hcode, Part.answered, if_neg hbare]
      simpa [Part.text] using hrest

/-! ## One step -/

theorem Part.of_mem_questions {bare : List α → Bool} {parts : List (Part α)} {spec : List α}
    (h : spec ∈ Part.questions bare parts) : bare spec := by
  induction parts with
  | nil => cases h
  | cons part parts ih =>
    cases part with
    | plain t => exact ih h
    | literal before content quote =>
      by_cases hbare : bare content
      · rw [Part.questions, if_pos hbare] at h
        rcases List.mem_cons.1 h with rfl | h
        · exact hbare
        · exact ih h
      · rw [Part.questions, if_neg hbare] at h
        exact ih h

/-- A step on any text: what it asks, how it ends, and what it replaces. -/
theorem replace_recorded (resolve : Resolution σ ε) (form : Form) (code : Text) (s : σ)
    (log : List (Text × Except ε Text)) : ∃ calls,
      replace form (recorded resolve) code (s, log) =
          ((replace form resolve code s).1, ((replace form resolve code s).2, log ++ calls)) ∧
        (∀ call ∈ calls, Specifier.isBare call.1) ∧ Ends calls (replace form resolve code s).1 ∧
        ∀ code', (replace form resolve code s).1 = .ok code' →
          ∃ pairs, calls = pairs.map answeredCall ∧ Replaces form code pairs code' := by
  obtain ⟨parts, rfl, hscans⟩ := exists_scans form true code
  have hbare : ∀ spec ∈ Part.questions Specifier.isBare parts, Specifier.isBare spec :=
    fun spec => Part.of_mem_questions
  obtain ⟨calls, heq, hmem, hends, hok⟩ :=
    askAll_recorded resolve (Part.questions Specifier.isBare parts) s log
  refine ⟨calls, ?_, fun call hcall => hbare _ (hmem call hcall), ?_, ?_⟩
  · rw [replace_of_scans _ hscans, replace_of_scans _ hscans, heq]
  · rw [replace_of_scans _ hscans]
    exact hends.map _
  · intro code' hcode
    rw [replace_of_scans _ hscans] at hcode
    rcases hask : (askAll resolve (Part.questions Specifier.isBare parts) s).1 with e | answers
    · rw [hask] at hcode
      cases hcode
    · rw [hask] at hcode
      obtain ⟨hlength, rfl⟩ := hok answers hask
      obtain rfl := Except.ok.inj hcode
      exact ⟨_, rfl, replaces_answered hscans answers hlength⟩

/-- A step that finds nothing bare does nothing. -/
theorem replace_eq_self (resolve : Resolution σ ε) {form : Form} {code : Text}
    (h : ∀ spec, .specifier spec ∈ segments form code → Specifier.isBare spec = false) (s : σ) :
    replace form resolve code s = (.ok code, s) := by
  rw [replace, resolveSegments_eq_self resolve h, flatMap_text_segments]

/-! ## Both steps -/

theorem resolveAll_eq_self (resolve : Resolution σ ε) {code : Text}
    (h : ∀ form spec, .specifier spec ∈ segments form code → Specifier.isBare spec = false) (s : σ) :
    resolveAll resolve code s = (.ok code, s) := by
  unfold resolveAll
  rw [replace_eq_self resolve (h .clause)]
  exact replace_eq_self resolve (h .sideEffect) s

/-- On every text and whatever the resolution, the calls are for bare specifiers. The rewriting that
gives a text has replaced contents of literals by the answers, in the order of the calls, first of
those that `from` opens and then, in the text that this gives, of those that the word for imports
opens; nothing else has changed, and nothing at all if no specifier that is found is bare. The
rewriting that fails has the error of its last call, and every call before it was answered. -/
theorem resolveAll_frame (resolve : Resolution σ ε) (code : Text) (s : σ) : ∃ calls,
    resolveAll (recorded resolve) code (s, []) =
        ((resolveAll resolve code s).1, ((resolveAll resolve code s).2, calls)) ∧
      (∀ call ∈ calls, call.1 ≠ [] ∧ call.1.head? ≠ some '.' ∧ call.1.head? ≠ some '/' ∧
        ¬ "://".toList <:+: call.1 ∧ ¬ "data:".toList <+: call.1) ∧
      Ends calls (resolveAll resolve code s).1 ∧
      (∀ code', (resolveAll resolve code s).1 = .ok code' → ∃ first second between,
        calls = (first ++ second).map answeredCall ∧ Replaces .clause code first between ∧
          Replaces .sideEffect between second code') ∧
      ((∀ form spec, .specifier spec ∈ segments form code → Specifier.isBare spec = false) →
        resolveAll resolve code s = (.ok code, s) ∧ calls = []) := by
  have hself : ∀ calls,
      resolveAll (recorded resolve) code (s, []) =
          ((resolveAll resolve code s).1, ((resolveAll resolve code s).2, calls)) →
      (∀ form spec, .specifier spec ∈ segments form code → Specifier.isBare spec = false) →
        resolveAll resolve code s = (.ok code, s) ∧ calls = [] := by
    intro calls heq h
    refine ⟨resolveAll_eq_self resolve h s, ?_⟩
    rw [resolveAll_eq_self (recorded resolve) h] at heq
    exact (Prod.mk.inj (Prod.mk.inj heq).2).2.symm
  obtain ⟨calls, heq, hbare, hends, hok⟩ := replace_recorded resolve .clause code s []
  rw [List.nil_append] at heq
  rcases hfirst : replace .clause resolve code s with ⟨e | between, s₁⟩
  · -- the first step fails, and its calls are all there are
    rw [hfirst] at heq hends
    have hall : resolveAll resolve code s = (.error e, s₁) := by rw [resolveAll, hfirst]
    have hallRecorded : resolveAll (recorded resolve) code (s, []) = (.error e, (s₁, calls)) := by
      rw [resolveAll, heq]
    rw [hall] at hself ⊢
    refine ⟨calls, hallRecorded, fun call hcall => isBare_iff.1 (hbare call hcall), hends, ?_,
      hself calls hallRecorded⟩
    intro code' hcode
    cases hcode
  · rw [hfirst] at heq hends hok
    obtain ⟨first, rfl, hreplaces⟩ := hok between rfl
    obtain ⟨calls, heq', hbare', hends', hok'⟩ :=
      replace_recorded resolve .sideEffect between s₁ (first.map answeredCall)
    have hall : resolveAll resolve code s = replace .sideEffect resolve between s₁ := by
      rw [resolveAll, hfirst]
    have hallRecorded : resolveAll (recorded resolve) code (s, []) =
        ((resolveAll resolve code s).1,
          ((resolveAll resolve code s).2, first.map answeredCall ++ calls)) := by
      rw [hall, resolveAll, heq]
      exact heq'
    refine ⟨first.map answeredCall ++ calls, hallRecorded, ?_, ?_, ?_, hself _ hallRecorded⟩
    · intro call hcall
      rcases List.mem_append.1 hcall with hcall | hcall
      · exact isBare_iff.1 (hbare call hcall)
      · exact isBare_iff.1 (hbare' call hcall)
    · rw [hall]
      exact hends'.answered first
    · intro code' hcode
      rw [hall] at hcode
      obtain ⟨second, rfl, hreplaces'⟩ := hok' code' hcode
      exact ⟨first, second, between, by rw [List.map_append], hreplaces, hreplaces'⟩

/-- Broken code in which the second step finds a statement inside a literal of the first. -/
theorem resolveAll_frame_broken :
    let resolve : Resolution Nat Unit := fun spec n =>
      if n = 0 then (.ok "/x;import\"c\"".toList, 1) else (.ok ('/' :: spec), n + 1)
    let code := "import (;export*from 'a;import\"b\"';from".toList
    let code' := "import (;export*from '/x;import\"/c\"';from".toList
    resolveAll resolve code 0 = (.ok code', 2) ∧ ∃ first second between,
      Replaces .clause code first between ∧ Replaces .sideEffect between second code' := by
  intro resolve code code'
  have hrun : resolveAll resolve code 0 = (.ok code', 2) := by decide +kernel
  obtain ⟨calls, -, -, -, hok, -⟩ := resolveAll_frame resolve code 0
  obtain ⟨first, second, between, -, hfirst, hsecond⟩ := hok code' (by rw [hrun])
  exact ⟨hrun, first, second, between, hfirst, hsecond⟩

end ModuleServer.Import
