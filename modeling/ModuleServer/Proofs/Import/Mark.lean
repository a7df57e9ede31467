import ModuleServer.Proofs.Import.Pass

/-!
# Rewriting with marks

A code with a mark on each character goes through both passes with the marks kept. What is put in
the place of a specifier has no mark.

* `Marked.resolveAll`: the rewriting of a marked code. Without the marks it is the rewriting of the
  code (`resolveAll_text`).
* `replace_of_traces`: what one pass asks for, and where the answers go, marks and all.
-/

namespace ModuleServer.Import

open Text

variable {σ ε : Type}

/-- A code with a mark on each character. -/
abbrev Marked := List (Char × Bool)

namespace Marked

/-- The code without the marks. -/
def text (m : Marked) : Text :=
  m.map Prod.fst

/-- The marked characters, in order. -/
def marked (m : Marked) : Text :=
  (m.filter Prod.snd).map Prod.fst

/-- A text without a mark on it. -/
def unmarked (t : Text) : Marked :=
  t.map fun c => (c, false)

@[simp] theorem text_append (m m' : Marked) : text (m ++ m') = text m ++ text m' :=
  List.map_append

@[simp] theorem text_unmarked (t : Text) : text (unmarked t) = t := by
  simp [text, unmarked, Function.comp_def]

@[simp] theorem marked_append (m m' : Marked) : marked (m ++ m') = marked m ++ marked m' := by
  simp [marked]

@[simp] theorem marked_unmarked (t : Text) : marked (unmarked t) = [] := by
  simp [marked, unmarked]

/-- Whether a marked specifier names a package. -/
def isBare (spec : Marked) : Bool :=
  Specifier.isBare spec.text

/-! ## The rewriting -/

/-- A marked code cut like segments. Each piece comes with whether it is a specifier. -/
def cut : List Segment → Marked → List (Bool × Marked)
  | [], _ => []
  | .verbatim t :: segs, m => (false, m.take t.length) :: cut segs (m.drop t.length)
  | .specifier t :: segs, m => (true, m.take t.length) :: cut segs (m.drop t.length)

/-- The marked code of pieces with their bare specifiers resolved in order. -/
def resolvePieces (ask : Marked → σ → Except ε Text × σ) :
    List (Bool × Marked) → σ → Except ε Marked × σ
  | [], s => (.ok [], s)
  | (false, t) :: rest, s =>
    let (code, s) := resolvePieces ask rest s
    (code.map (t ++ ·), s)
  | (true, spec) :: rest, s =>
    if isBare spec then
      match ask spec s with
      | (.error e, s) => (.error e, s)
      | (.ok url, s) =>
        let (code, s) := resolvePieces ask rest s
        (code.map (unmarked url ++ ·), s)
    else
      let (code, s) := resolvePieces ask rest s
      (code.map (spec ++ ·), s)

/-- The marked code with the bare specifiers of statements of a form resolved. -/
def replace (form : Form) (ask : Marked → σ → Except ε Text × σ) (m : Marked) (s : σ) :
    Except ε Marked × σ :=
  resolvePieces ask (cut (segments form m.text) m) s

/-- The marked code with its bare specifiers resolved. -/
def resolveAll (ask : Marked → σ → Except ε Text × σ) (m : Marked) (s : σ) : Except ε Marked × σ :=
  match replace .clause ask m s with
  | (.error e, s) => (.error e, s)
  | (.ok m, s) => replace .sideEffect ask m s

/-- The questions of a resolution about marked specifiers, with a note of them. -/
def noting (resolve : Resolution σ ε) : Marked → σ × List Marked → Except ε Text × (σ × List Marked) :=
  noted fun spec => resolve spec.text

/-! ## Marks change nothing -/

theorem text_take_drop {m : Marked} {t t' : Text} (h : m.text = t ++ t') :
    text (m.take t.length) = t ∧ text (m.drop t.length) = t' := by
  unfold text at h ⊢
  rw [List.map_take, List.map_drop, h]
  exact ⟨List.take_left .., List.drop_left ..⟩

theorem resolvePieces_text (resolve : Resolution σ ε) (segs : List Segment) :
    ∀ (m : Marked) (s : σ), m.text = segs.flatMap Segment.text →
      ((resolvePieces (fun spec => resolve spec.text) (cut segs m) s).1.map text,
        (resolvePieces (fun spec => resolve spec.text) (cut segs m) s).2) =
          resolveSegments resolve segs s := by
  induction segs with
  | nil =>
    intro m s _
    rfl
  | cons seg segs ih =>
    intro m s h
    rw [List.flatMap_cons] at h
    obtain ⟨hfront, hrest⟩ := text_take_drop h
    cases seg with
    | verbatim t =>
      have hfront : text (m.take t.length) = t := hfront
      simp only [cut, resolvePieces, resolveSegments, ← ih _ s hrest, Segment.text]
      rcases resolvePieces (fun spec => resolve spec.text) (cut segs (m.drop t.length)) s with
        ⟨_ | m', s'⟩
      · rfl
      · simp [Except.map, hfront]
    | specifier spec =>
      have hfront : text (m.take spec.length) = spec := hfront
      simp only [cut, resolvePieces, resolveSegments, isBare, hfront]
      split
      · rcases resolve spec s with ⟨_ | url, s₁⟩
        · rfl
        · simp only [← ih _ s₁ hrest, Segment.text]
          rcases resolvePieces (fun spec => resolve spec.text) (cut segs (m.drop spec.length)) s₁ with
            ⟨_ | m', s'⟩
          · rfl
          · simp [Except.map]
      · simp only [← ih _ s hrest, Segment.text]
        rcases resolvePieces (fun spec => resolve spec.text) (cut segs (m.drop spec.length)) s with
          ⟨_ | m', s'⟩
        · rfl
        · simp [Except.map, hfront]

theorem resolvePieces_noted (ask : Marked → σ → Except ε Text × σ) (pieces : List (Bool × Marked)) :
    ∀ (s : σ) (log : List Marked),
      ((resolvePieces (noted ask) pieces (s, log)).1,
        (resolvePieces (noted ask) pieces (s, log)).2.1) = resolvePieces ask pieces s := by
  induction pieces with
  | nil =>
    intro s log
    rfl
  | cons piece pieces ih =>
    obtain ⟨isSpecifier, t⟩ := piece
    intro s log
    cases isSpecifier with
    | false => simp only [resolvePieces, ← ih s log]
    | true =>
      simp only [resolvePieces]
      split
      · simp only [noted]
        rcases ask t s with ⟨_ | url, s₁⟩
        · rfl
        · simp only [← ih s₁ (log ++ [t])]
      · simp only [← ih s log]

theorem replace_text (resolve : Resolution σ ε) (form : Form) (m : Marked) (s : σ)
    (log : List Marked) :
    ((replace form (noting resolve) m (s, log)).1.map text,
      (replace form (noting resolve) m (s, log)).2.1) = Import.replace form resolve m.text s := by
  -- the note is one thing and the marks another: each is dropped by its own lemma
  have hnoted := resolvePieces_noted (fun spec => resolve spec.text)
    (cut (segments form m.text) m) s log
  rw [Import.replace, ← resolvePieces_text resolve _ m s (flatMap_text_segments form _).symm, ← hnoted]
  rfl

/-- Without the marks, this is the rewriting. -/
theorem resolveAll_text (resolve : Resolution σ ε) (m : Marked) (s : σ) :
    ((resolveAll (noting resolve) m (s, [])).1.map text,
      (resolveAll (noting resolve) m (s, [])).2.1) = Import.resolveAll resolve m.text s := by
  unfold resolveAll Import.resolveAll
  rw [← replace_text resolve .clause m s []]
  rcases replace .clause (noting resolve) m (s, []) with ⟨_ | m', s', log⟩
  · rfl
  · exact replace_text resolve .sideEffect m' s' log

/-! ## Parts with marks -/

/-- The parts that a pass makes of a marked code. -/
structure Traces (form : Form) (m : Marked) (parts : List (Part (Char × Bool))) : Prop where
  text : Part.textOf parts = m
  scans : Scans form true (parts.map (Part.map Prod.fst))

theorem exists_lift (parts : List (Part Char)) :
    ∀ m : Marked, m.text = Part.textOf parts →
      ∃ parts', Part.textOf parts' = m ∧ parts'.map (Part.map Prod.fst) = parts := by
  induction parts with
  | nil =>
    intro m h
    exact ⟨[], (List.map_eq_nil_iff.1 h).symm, rfl⟩
  | cons part parts ih =>
    intro m h
    rw [Part.textOf_cons] at h
    obtain ⟨front, rest, rfl, hfront, hrest⟩ := List.map_eq_append_iff.1 h
    obtain ⟨parts', rfl, rfl⟩ := ih rest hrest
    cases part with
    | plain t =>
      obtain rfl : front.map Prod.fst = t := hfront
      exact ⟨.plain front :: parts', rfl, rfl⟩
    | literal before content quote =>
      obtain ⟨front, last, rfl, hfront, hlast⟩ := List.map_eq_append_iff.1 hfront
      obtain ⟨before', content', rfl, rfl, rfl⟩ := List.map_eq_append_iff.1 hfront
      obtain ⟨quote', rfl, rfl⟩ : ∃ q, last = [q] ∧ q.1 = quote := by
        simpa [List.map_eq_singleton_iff] using hlast
      exact ⟨.literal before' content' quote' :: parts', rfl, rfl⟩

/-- Every marked code is made of parts. -/
theorem exists_traces (form : Form) (m : Marked) : ∃ parts, Traces form m parts := by
  obtain ⟨parts, htext, hscans⟩ := exists_scans form true m.text
  obtain ⟨parts', rfl, rfl⟩ := exists_lift parts m htext.symm
  exact ⟨parts', rfl, hscans⟩

theorem cut_chars (segs : List Segment) (t m : Marked) :
    cut (t.map (fun c => .verbatim [c.1]) ++ segs) (t ++ m) =
      t.map (fun c => (false, [c])) ++ cut segs m := by
  induction t with
  | nil => rfl
  | cons c t ih =>
    simp only [List.map_cons, List.cons_append, cut, List.length_cons, List.length_nil, Nat.zero_add,
      List.take_succ_cons, List.take_zero, List.drop_succ_cons, List.drop_zero, ih]

theorem resolvePieces_chars (ask : Marked → σ → Except ε Text × σ) (t : Marked)
    (pieces : List (Bool × Marked)) (s : σ) :
    resolvePieces ask (t.map (fun c => (false, [c])) ++ pieces) s =
      ((resolvePieces ask pieces s).1.map (t ++ ·), (resolvePieces ask pieces s).2) := by
  induction t with
  | nil =>
    rw [List.map_nil, List.nil_append]
    rcases resolvePieces ask pieces s with ⟨_ | code, s'⟩ <;> rfl
  | cons c t ih =>
    simp only [List.map_cons, List.cons_append, resolvePieces, ih]
    rcases resolvePieces ask pieces s with ⟨_ | code, s'⟩ <;> rfl

theorem resolvePieces_parts (ask : Marked → σ → Except ε Text × σ)
    (parts : List (Part (Char × Bool))) :
    ∀ s, resolvePieces ask
        (cut ((parts.map (Part.map Prod.fst)).flatMap Part.segments) (Part.textOf parts)) s =
      ((askAll ask (Part.questions isBare parts) s).1.map
          fun answers => Part.textOf (Part.answered isBare parts (answers.map unmarked)),
        (askAll ask (Part.questions isBare parts) s).2) := by
  induction parts with
  | nil =>
    intro s
    rfl
  | cons part parts ih =>
    intro s
    rw [List.map_cons, List.flatMap_cons, Part.textOf_cons]
    cases part with
    | plain t =>
      simp only [Part.map, Part.segments, Part.text, List.map_map, Function.comp_def, Part.questions]
      rw [cut_chars, resolvePieces_chars, ih]
      rcases askAll ask (Part.questions isBare parts) s with ⟨_ | answers, s'⟩ <;> rfl
    | literal before content quote =>
      have hcut : ∀ segs m, cut ([.verbatim (before.map Prod.fst), .specifier (content.map Prod.fst),
          .verbatim [quote.1]] ++ segs) (before ++ content ++ [quote] ++ m) =
          (false, before) :: (true, content) :: (false, [quote]) :: cut segs m := by
        intro segs m
        simp [cut]
      simp only [Part.map, Part.segments, Part.text]
      rw [hcut]
      simp only [resolvePieces, Part.questions]
      by_cases hbare : isBare content
      · simp only [if_pos hbare, askAll]
        rcases ask content s with ⟨_ | url, s'⟩
        · rfl
        · simp only [ih]
          rcases askAll ask (Part.questions isBare parts) s' with ⟨_ | answers, s''⟩
          · rfl
          · simp [Except.map, Part.answered, hbare, Part.text]
      · simp only [if_neg hbare, ih]
        rcases askAll ask (Part.questions isBare parts) s with ⟨_ | answers, s'⟩
        · rfl
        · simp [Except.map, Part.answered, hbare, Part.text]

/-- A pass asks for the bare contents in order, and puts the answers in their place. -/
theorem replace_of_traces (ask : Marked → σ → Except ε Text × σ) {form : Form} {m : Marked}
    {parts : List (Part (Char × Bool))} (h : Traces form m parts) (s : σ) :
    replace form ask m s =
      ((askAll ask (Part.questions isBare parts) s).1.map
          fun answers => Part.textOf (Part.answered isBare parts (answers.map unmarked)),
        (askAll ask (Part.questions isBare parts) s).2) := by
  obtain ⟨rfl, hscans⟩ := h
  rw [replace, segments, text, ← Part.textOf_map, segmentsFrom_of_scans hscans, resolvePieces_parts]

/-- A pass that ends well has an answer to each question, and makes its code of them. -/
theorem replace_eq_ok {ask : Marked → σ → Except ε Text × σ} {form : Form} {m m' : Marked}
    {parts : List (Part (Char × Bool))} (h : Traces form m parts) {s s' : σ}
    (hrun : replace form ask m s = (.ok m', s')) :
    ∃ answers : List Text, answers.length = (Part.questions isBare parts).length ∧
      m' = Part.textOf (Part.answered isBare parts (answers.map unmarked)) := by
  rw [replace_of_traces ask h] at hrun
  rcases hask : askAll ask (Part.questions isBare parts) s with ⟨_ | answers, s₁⟩
  · simp [hask, Except.map] at hrun
  · simp only [hask, Except.map, Prod.mk.injEq, Except.ok.injEq] at hrun
    exact ⟨answers, length_of_askAll hask, hrun.1.symm⟩

end Marked

end ModuleServer.Import
