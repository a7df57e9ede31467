import ModuleServer.Import.Resolution
import ModuleServer.Proofs.Import.Shape

/-!
# One pass over a code

A pass cuts a code into parts, from left to right: plain text, in which no statement starts at a
place where one may, and the literals of statements.

* `Scans`: parts that a pass makes. Every code is made of such parts (`exists_scans`).
* `replace_of_scans`: on them a pass asks for the bare contents in order, puts the answers in their
  place, and leaves all else alone.
-/

namespace ModuleServer.Import

open Text

variable {σ ε α β : Type}

/-! ## Parts -/

/-- A part of a code. -/
inductive Part (α : Type) where
  /-- Text without a literal of a statement. -/
  | plain (t : List α)
  /-- The end of a statement: the text up to the opening quote, with it, the content of the literal,
  and the closing quote. -/
  | literal (before content : List α) (quote : α)

/-- The text of a part. -/
def Part.text : Part α → List α
  | .plain t => t
  | .literal before content quote => before ++ content ++ [quote]

/-- The text of parts. -/
def Part.textOf (parts : List (Part α)) : List α :=
  parts.flatMap Part.text

@[simp] theorem Part.textOf_nil : Part.textOf ([] : List (Part α)) = [] := rfl

@[simp] theorem Part.textOf_cons (p : Part α) (parts : List (Part α)) :
    Part.textOf (p :: parts) = p.text ++ Part.textOf parts := rfl

/-- A part with each of its items mapped. -/
def Part.map (f : α → β) : Part α → Part β
  | .plain t => .plain (t.map f)
  | .literal before content quote => .literal (before.map f) (content.map f) (f quote)

theorem Part.textOf_map (f : α → β) (parts : List (Part α)) :
    Part.textOf (parts.map (Part.map f)) = (Part.textOf parts).map f := by
  induction parts with
  | nil => rfl
  | cons part parts ih => cases part <;> simp [Part.map, Part.text, ih]

/-- The contents of a class that are asked for, in order. -/
def Part.questions (bare : List α → Bool) : List (Part α) → List (List α)
  | [] => []
  | .plain _ :: parts => questions bare parts
  | .literal _ content _ :: parts =>
    if bare content then content :: questions bare parts else questions bare parts

/-- The parts with the contents of a class replaced by answers, in order. -/
def Part.answered (bare : List α → Bool) : List (Part α) → List (List α) → List (Part α)
  | [], _ => []
  | .plain t :: parts, answers => .plain t :: answered bare parts answers
  | .literal before content quote :: parts, answers =>
    if bare content then
      .literal before (answers.headD content) quote :: answered bare parts answers.tail
    else .literal before content quote :: answered bare parts answers

/-! ## Parts that a pass makes -/

/-- The parts of a pass. `atStart` says whether a statement may start before them. -/
inductive Scans (form : Form) : Bool → List (Part Char) → Prop where
  | nil {atStart : Bool} : Scans form atStart []
  | plain {atStart : Bool} {t : Text} {parts : List (Part Char)}
      (hnone : ∀ u v, u ++ v = t → v ≠ [] → Opens atStart u → ¬ Starts form (v ++ Part.textOf parts))
      (hrest : Scans form (t.foldl startsBehind atStart) parts) :
      Scans form atStart (.plain t :: parts)
  | literal {before content : Text} {quote : Char} {parts : List (Part Char)}
      (hfound : Literal.Found form ⟨before, content, Part.textOf parts, quote⟩)
      (hrest : Scans form false parts) : Scans form true (.literal before content quote :: parts)

/-- Every code is made of parts. -/
theorem exists_scans (form : Form) (atStart : Bool) (t : Text) :
    ∃ parts, Part.textOf parts = t ∧ Scans form atStart parts := by
  -- the parts follow the scan: each character it passes over is a plain part of its own
  fun_induction segmentsFrom form atStart t with
  | case1 => exact ⟨[], rfl, .nil⟩
  | case2 atStart c r l h ih =>
    split at h
    · rename_i hstart
      subst hstart
      obtain ⟨hfound, hsource⟩ := statement?_eq_some_iff.1 h
      obtain ⟨parts, htext, hscans⟩ := ih
      refine ⟨.literal l.before l.content l.quote :: parts, ?_, .literal ?_ hscans⟩
      · rw [← hsource, Part.textOf_cons, htext]
        simp [Part.text, Literal.source]
      · rw [htext]
        exact hfound
    · simp at h
  | case3 atStart c r h ih =>
    obtain ⟨parts, htext, hscans⟩ := ih
    refine ⟨.plain [c] :: parts, by simp [Part.text, htext], .plain ?_ hscans⟩
    intro u v huv hv hopens
    obtain ⟨rfl, rfl⟩ : u = [] ∧ v = [c] := by
      cases u with
      | nil => exact ⟨rfl, huv⟩
      | cons d u =>
        obtain ⟨-, hnil⟩ := List.cons.inj huv
        exact absurd (List.append_eq_nil_iff.1 hnil).2 hv
    rw [dif_pos (opens_nil.1 hopens)] at h
    rw [htext]
    exact statement?_eq_none_iff.1 h

/-! ## A pass over its parts -/

theorem segmentsFrom_plain {form : Form} {r : Text} (t : Text) :
    ∀ atStart, (∀ u v, u ++ v = t → v ≠ [] → Opens atStart u → ¬ Starts form (v ++ r)) →
      segmentsFrom form atStart (t ++ r) =
        t.map (fun c => .verbatim [c]) ++ segmentsFrom form (t.foldl startsBehind atStart) r := by
  induction t with
  | nil =>
    intro atStart _
    rfl
  | cons c t ih =>
    intro atStart hnone
    have hhere : (if atStart then statement? form (c :: (t ++ r)) else none) = none := by
      split
      · rename_i hstart
        exact statement?_eq_none_iff.2 (hnone [] (c :: t) rfl (by simp) (opens_nil.2 hstart))
      · rfl
    have hthere : ∀ u v, u ++ v = t → v ≠ [] → Opens (startsBehind atStart c) u →
        ¬ Starts form (v ++ r) := by
      intro u v huv hv hopens
      refine hnone (c :: u) v (by rw [← huv]; rfl) hv ?_
      -- both sides are the same fold, one character further on
      rw [opens_iff] at hopens ⊢
      exact hopens
    rw [List.cons_append, segmentsFrom]
    split
    · rename_i l hl
      rw [hhere] at hl
      simp at hl
    · rw [ih _ hthere]
      rfl

theorem segmentsFrom_source {form : Form} {l : Literal} (h : l.Found form) :
    segmentsFrom form true l.source =
      .verbatim l.before :: .specifier l.content :: .verbatim [l.quote] ::
        segmentsFrom form false l.after := by
  have hstatement := statement?_eq_some_iff.2 ⟨h, rfl⟩
  -- the scan goes by the first character, so the text has to be seen not to be empty
  have hlength := length_after_statement? hstatement
  cases hsource : l.source with
  | nil =>
    rw [hsource] at hlength
    simp at hlength
  | cons c r =>
    rw [hsource] at hstatement
    rw [segmentsFrom]
    split
    · rename_i k hk
      rw [if_pos rfl, hstatement] at hk
      obtain rfl := Option.some.inj hk
      rfl
    · rename_i hk
      rw [if_pos rfl, hstatement] at hk
      simp at hk

/-- The segments of a part: plain text comes character by character. -/
def Part.segments : Part Char → List Segment
  | .plain t => t.map fun c => .verbatim [c]
  | .literal before content quote => [.verbatim before, .specifier content, .verbatim [quote]]

theorem segmentsFrom_of_scans {form : Form} {atStart : Bool} {parts : List (Part Char)}
    (h : Scans form atStart parts) :
    segmentsFrom form atStart (Part.textOf parts) = parts.flatMap Part.segments := by
  induction h with
  | nil =>
    rw [Part.textOf_nil, segmentsFrom]
    rfl
  | plain hnone hrest ih =>
    rw [Part.textOf_cons, Part.text, segmentsFrom_plain _ _ hnone, ih]
    rfl
  | literal hfound hrest ih =>
    rename_i before content quote parts
    have hsource : Part.textOf (.literal before content quote :: parts) =
        Literal.source ⟨before, content, Part.textOf parts, quote⟩ := by
      simp [Part.text, Literal.source]
    rw [hsource, segmentsFrom_source hfound, ih]
    rfl

/-- Every specifier of a cut stands behind text that ends with a head. -/
theorem exists_of_segmentsFrom {form : Form} {atStart : Bool} {t content : Text}
    {front back : List Segment}
    (h : segmentsFrom form atStart t = front ++ .specifier content :: back) :
    ∃ segs before after quote, front = segs ++ [.verbatim before] ∧
      Literal.Found form ⟨before, content, after, quote⟩ := by
  fun_induction segmentsFrom form atStart t generalizing front with
  | case1 => simp at h
  | case2 atStart c r l hl ih =>
    have hfound : l.Found form := by
      split at hl
      · exact (statement?_eq_some_iff.1 hl).1
      · simp at hl
    -- the specifier is this one, or comes behind the closing quote
    rcases front with _ | ⟨x, _ | ⟨y, _ | ⟨z, front⟩⟩⟩
    · simp at h
    · simp only [List.cons_append, List.nil_append, List.cons.injEq, Segment.specifier.injEq] at h
      obtain ⟨rfl, rfl, -⟩ := h
      exact ⟨[], l.before, l.after, l.quote, rfl, hfound⟩
    · simp at h
    · simp only [List.cons_append, List.cons.injEq] at h
      obtain ⟨segs, before, after, quote, rfl, hothers⟩ := ih h.2.2.2
      exact ⟨x :: y :: z :: segs, before, after, quote, rfl, hothers⟩
  | case3 atStart c r hl ih =>
    rcases front with _ | ⟨x, front⟩
    · simp at h
    · simp only [List.cons_append, List.cons.injEq] at h
      obtain ⟨segs, before, after, quote, rfl, hfound⟩ := ih h.2
      exact ⟨x :: segs, before, after, quote, rfl, hfound⟩

theorem found_of_segmentsFrom {form : Form} {atStart : Bool} {t before content : Text}
    {segs segs' : List Segment}
    (h : segmentsFrom form atStart t = segs ++ .verbatim before :: .specifier content :: segs') :
    ∃ after quote, Literal.Found form ⟨before, content, after, quote⟩ := by
  have hcut : segmentsFrom form atStart t =
      (segs ++ [.verbatim before]) ++ .specifier content :: segs' := by
    rw [h]
    simp
  obtain ⟨segs₁, before₁, after, quote, hfront, hfound⟩ := exists_of_segmentsFrom hcut
  obtain ⟨-, hlast⟩ := List.append_inj' hfront rfl
  obtain rfl : before = before₁ := by simpa using hlast
  exact ⟨after, quote, hfound⟩

/-! ## Questions in order -/

section Questions

variable {κ : Type}

/-- Questions one after the other, up to the first that fails, with the answers to all. -/
def askAll (ask : κ → σ → Except ε Text × σ) : List κ → σ → Except ε (List Text) × σ
  | [], s => (.ok [], s)
  | spec :: specs, s =>
    match ask spec s with
    | (.error e, s) => (.error e, s)
    | (.ok url, s) =>
      let (urls, s) := askAll ask specs s
      (urls.map (url :: ·), s)

/-- The same answers, with a note of what was asked. -/
def noted (ask : κ → σ → Except ε Text × σ) : κ → σ × List κ → Except ε Text × (σ × List κ) :=
  fun spec s => ((ask spec s.1).1, (ask spec s.1).2, s.2 ++ [spec])

variable {ask : κ → σ → Except ε Text × σ}

theorem askAll_append (specs specs' : List κ) (s : σ) :
    askAll ask (specs ++ specs') s =
      match askAll ask specs s with
      | (.error e, s) => (.error e, s)
      | (.ok urls, s) => ((askAll ask specs' s).1.map (urls ++ ·), (askAll ask specs' s).2) := by
  induction specs generalizing s with
  | nil =>
    rw [List.nil_append]
    rcases h : askAll ask specs' s with ⟨_ | urls, s'⟩ <;> simp [askAll, h, Except.map]
  | cons spec specs ih =>
    simp only [List.cons_append, askAll]
    rcases ask spec s with ⟨_ | url, s₁⟩
    · rfl
    · simp only [ih]
      rcases askAll ask specs s₁ with ⟨_ | urls, s₂⟩
      · rfl
      · rcases h : askAll ask specs' s₂ with ⟨_ | urls', s₃⟩ <;> simp [Except.map, h]

/-- If no question fails, the first has an answer, and the others are asked behind it. -/
theorem askAll_cons_eq_ok {spec : κ} {specs : List κ} {s s' : σ} {urls : List Text}
    (h : askAll ask (spec :: specs) s = (.ok urls, s')) :
    ∃ url s₁ urls₁, ask spec s = (.ok url, s₁) ∧ askAll ask specs s₁ = (.ok urls₁, s') ∧
      urls = url :: urls₁ := by
  simp only [askAll] at h
  rcases hr : ask spec s with ⟨_ | url, s₁⟩
  · simp [hr] at h
  · rcases hrest : askAll ask specs s₁ with ⟨_ | urls₁, s₂⟩
    · simp [hr, hrest, Except.map] at h
    · simp only [hr, hrest, Except.map, Prod.mk.injEq, Except.ok.injEq] at h
      refine ⟨url, s₁, urls₁, rfl, ?_, h.1.symm⟩
      rw [hrest, h.2]

/-- There are as many answers as questions. -/
theorem length_of_askAll {specs : List κ} :
    ∀ {s urls s'}, askAll ask specs s = (.ok urls, s') → urls.length = specs.length := by
  induction specs with
  | nil =>
    intro s urls s' h
    simp only [askAll, Prod.mk.injEq, Except.ok.injEq] at h
    rw [← h.1]
    rfl
  | cons spec specs ih =>
    intro s urls s' h
    obtain ⟨url, s₁, urls₁, -, hrest, rfl⟩ := askAll_cons_eq_ok h
    rw [List.length_cons, List.length_cons, ih hrest]

/-- Nothing but the questions is noted. -/
theorem mem_noted {specs : List κ} :
    ∀ {s log}, ∀ spec ∈ (askAll (noted ask) specs (s, log)).2.2, spec ∈ log ∨ spec ∈ specs := by
  induction specs with
  | nil =>
    intro s log spec h
    exact Or.inl h
  | cons spec specs ih =>
    intro s log asked h
    simp only [askAll, noted] at h
    have hhere : asked ∈ log ++ [spec] → asked ∈ log ∨ asked ∈ spec :: specs := by
      intro h
      rcases List.mem_append.1 h with h | h
      · exact Or.inl h
      · exact Or.inr (List.mem_singleton.1 h ▸ List.mem_cons_self)
    rcases hr : ask spec s with ⟨_ | url, s₁⟩
    · rw [hr] at h
      exact hhere h
    · rw [hr] at h
      rcases ih asked h with h | h
      · exact hhere h
      · exact Or.inr (List.mem_cons_of_mem _ h)

/-- All questions are noted if none fails. -/
theorem askAll_noted {specs : List κ} :
    ∀ {s urls s'} log, askAll ask specs s = (.ok urls, s') →
      askAll (noted ask) specs (s, log) = (.ok urls, (s', log ++ specs)) := by
  induction specs with
  | nil =>
    intro s urls s' log h
    simp only [askAll, Prod.mk.injEq, Except.ok.injEq] at h
    obtain ⟨rfl, rfl⟩ := h
    simp [askAll]
  | cons spec specs ih =>
    intro s urls s' log h
    obtain ⟨url, s₁, urls₁, hr, hrest, rfl⟩ := askAll_cons_eq_ok h
    have hnoted := ih (log ++ [spec]) hrest
    rw [List.append_assoc, List.singleton_append] at hnoted
    simp only [askAll, noted, hr, hnoted, Except.map]

end Questions

/-! ## A pass is its questions -/

theorem resolveSegments_chars (resolve : Resolution σ ε) (t : Text) (segs : List Segment) (s : σ) :
    resolveSegments resolve (t.map (fun c => .verbatim [c]) ++ segs) s =
      ((resolveSegments resolve segs s).1.map (t ++ ·), (resolveSegments resolve segs s).2) := by
  induction t with
  | nil =>
    rw [List.map_nil, List.nil_append]
    rcases resolveSegments resolve segs s with ⟨_ | code, s'⟩ <;> rfl
  | cons c t ih =>
    simp only [List.map_cons, List.cons_append, resolveSegments, ih]
    rcases resolveSegments resolve segs s with ⟨_ | code, s'⟩ <;> rfl

/-- Segments without a bare specifier are copied. -/
theorem resolveSegments_eq_self (resolve : Resolution σ ε) {segs : List Segment}
    (h : ∀ spec, .specifier spec ∈ segs → Specifier.isBare spec = false) (s : σ) :
    resolveSegments resolve segs s = (.ok (segs.flatMap Segment.text), s) := by
  induction segs with
  | nil => rfl
  | cons seg segs ih =>
    have hrest := ih fun spec hspec => h spec (List.mem_cons_of_mem _ hspec)
    cases seg with
    | verbatim t => simp [resolveSegments, hrest, Except.map, Segment.text]
    | specifier spec =>
      have hspec := h spec List.mem_cons_self
      simp [resolveSegments, hspec, hrest, Except.map, Segment.text]

theorem resolveSegments_parts (resolve : Resolution σ ε) (parts : List (Part Char)) (s : σ) :
    resolveSegments resolve (parts.flatMap Part.segments) s =
      ((askAll resolve (Part.questions Specifier.isBare parts) s).1.map
          fun answers => Part.textOf (Part.answered Specifier.isBare parts answers),
        (askAll resolve (Part.questions Specifier.isBare parts) s).2) := by
  induction parts generalizing s with
  | nil => rfl
  | cons part parts ih =>
    rw [List.flatMap_cons]
    cases part with
    | plain t =>
      rw [Part.segments, resolveSegments_chars, ih]
      simp only [Part.questions]
      rcases askAll resolve (Part.questions Specifier.isBare parts) s with ⟨_ | answers, s'⟩ <;> rfl
    | literal before content quote =>
      simp only [Part.segments, List.cons_append, List.nil_append, resolveSegments, Part.questions]
      by_cases hbare : Specifier.isBare content
      · simp only [if_pos hbare, askAll]
        rcases resolve content s with ⟨_ | url, s'⟩
        · rfl
        · simp only [ih]
          rcases askAll resolve (Part.questions Specifier.isBare parts) s' with ⟨_ | answers, s''⟩
          · rfl
          · simp [Except.map, Part.answered, hbare, Part.text]
      · simp only [if_neg hbare, ih]
        rcases askAll resolve (Part.questions Specifier.isBare parts) s with ⟨_ | answers, s'⟩
        · rfl
        · simp [Except.map, Part.answered, hbare, Part.text]

/-- A pass asks for the bare contents in order, and puts the answers in their place. -/
theorem replace_of_scans (resolve : Resolution σ ε) {form : Form} {parts : List (Part Char)}
    (h : Scans form true parts) (s : σ) :
    replace form resolve (Part.textOf parts) s =
      ((askAll resolve (Part.questions Specifier.isBare parts) s).1.map
          fun answers => Part.textOf (Part.answered Specifier.isBare parts answers),
        (askAll resolve (Part.questions Specifier.isBare parts) s).2) := by
  rw [replace, segments, segmentsFrom_of_scans h, resolveSegments_parts]

end ModuleServer.Import
