import ModuleServer.Proofs.Component.Reading
import ModuleServer.Proofs.Import.FirstLine
import ModuleServer.Proofs.Import.Frame

/-!
# Paths that are taken for code

What is written for a path in the first line of a main module has no blank and no double quote. So
where a specifier is found in it, the path itself has the word for imports and a single quote
(`exists_of_mistaken`), and what the rewriting puts there comes right behind them.
-/

namespace ModuleServer.Import

open Text Component

variable {σ ε : Type} {resolve : Resolution σ ε} {s s' : σ}

/-- The first bare specifier of segments is the first to be asked for. Up to it nothing changes, and
behind that stands the answer. -/
theorem exists_first_bare {segs : List Segment} {code : Text}
    (h : resolveSegments resolve segs s = (.ok code, s')) :
    (∀ spec, .specifier spec ∈ segs → Specifier.isBare spec = false) ∨
      ∃ front spec back url rest, segs = front ++ .specifier spec :: back ∧
        Specifier.isBare spec ∧ (resolve spec s).1 = .ok url ∧
        code = front.flatMap Segment.text ++ (url ++ rest) := by
  induction segs generalizing code with
  | nil => exact .inl (by simp)
  | cons seg segs ih =>
    by_cases hbare : ∃ spec, seg = .specifier spec ∧ Specifier.isBare spec
    · obtain ⟨spec, rfl, hbare⟩ := hbare
      refine .inr ⟨[], spec, segs, ?_⟩
      rw [resolveSegments, if_pos hbare] at h
      rcases hr : resolve spec s with ⟨_ | url, s₁⟩
      · rw [hr] at h
        cases h
      · rw [hr] at h
        rcases hrest : resolveSegments resolve segs s₁ with ⟨_ | rest, s₂⟩
        · simp only [hrest, Except.map] at h
          cases h
        · simp only [hrest, Except.map] at h
          cases h
          exact ⟨url, rest, rfl, hbare, rfl, rfl⟩
    · -- the segment is copied, and the state is the same behind it
      have hplain : ∀ spec, .specifier spec ∈ [seg] → Specifier.isBare spec = false := by
        intro spec hspec
        have hseg := List.mem_singleton.1 hspec
        simpa using fun htrue => hbare ⟨spec, hseg.symm, htrue⟩
      rw [← List.singleton_append] at h
      obtain ⟨a, s₁, b, ha, hb, rfl⟩ := resolveSegments_append_eq_ok h
      rw [resolveSegments_eq_self resolve hplain] at ha
      cases ha
      rcases ih hb with hnone | ⟨front, spec, back, url, rest, rfl, hspec, hurl, rfl⟩
      · refine .inl fun spec hspec => ?_
        rcases List.mem_cons.1 hspec with hseg | hspec
        · simpa using fun htrue => hbare ⟨spec, hseg.symm, htrue⟩
        · exact hnone spec hspec
      · refine .inr ⟨seg :: front, spec, back, url, rest, rfl, hspec, hurl, ?_⟩
        simp

theorem not_mem_encodePath_of_isBlank {c : Char} {path : Text} (h : isBlank c) :
    c ∉ encodePath path := by
  simp only [isBlank, Bool.or_eq_true, Bool.and_eq_true, decide_eq_true_eq] at h
  rcases h with rfl | h
  · exact not_mem_encodePath (by decide) (by decide) path
  · refine not_mem_encodePath ?_ ?_ path
    · simp only [isEncoded, Bool.or_eq_true, decide_eq_true_eq]
      omega
    · rintro rfl
      exact absurd h (by decide)

/-- Between the word for imports and a specifier that is found in a path there is a single quote and
nothing else. -/
theorem eq_of_mem_encodePath {gap path : Text} {quote : Char} (hquote : isQuote quote)
    (hgap : ∀ c ∈ gap, isBlank c) (hmem : ∀ c ∈ gap ++ [quote], c ∈ encodePath path) :
    gap = [] ∧ quote = '\'' := by
  constructor
  · refine List.eq_nil_iff_forall_not_mem.2 fun c hc => ?_
    exact not_mem_encodePath_of_isBlank (hgap c hc) (hmem c (List.mem_append_left _ hc))
  · refine (isQuote_iff.1 hquote).resolve_left ?_
    rintro rfl
    exact absurd (hmem '"' (by simp)) (not_mem_encodePath (by decide) (by decide) path)

/-- What stands before a specifier that is mistaken for an import. -/
def importQuote : Text := importWord ++ ['\'']

/-- A path in which something is mistaken has the word for imports and a single quote. What is
written for it is left as it is up to there, and goes on with the answer to the first question,
while the path does not go on with a slash. -/
theorem exists_of_mistaken {path path' : Text} (hmistaken : mistaken path ≠ [])
    (h : resolveSegments resolve (segmentsFrom .sideEffect false (encodePath path)) s =
      (.ok path', s')) :
    ∃ front d behind spec url rest, path = front ++ importQuote ++ d :: behind ∧ d ≠ '/' ∧
      Specifier.isBare spec ∧ (resolve spec s).1 = .ok url ∧
      path' = encodePath (front ++ importQuote) ++ (url ++ rest) := by
  rcases exists_first_bare h with hnone | ⟨segs, spec, back, url, rest, hsegs, hbare, hurl, hpath'⟩
  · exact absurd (mistaken_eq_nil_iff.2 hnone) hmistaken
  obtain ⟨segs, before, after, quote, rfl, hfound⟩ := exists_of_segmentsFrom hsegs
  have htext := flatMap_text_segmentsFrom .sideEffect false (encodePath path)
  rw [hsegs] at htext
  have hopens : OpensLiteral .sideEffect quote before := hfound.opensLiteral
  obtain ⟨hquote, word, gap, rfl, hgap⟩ := hopens
  have hmem : ∀ c ∈ gap ++ [quote], c ∈ encodePath path := by
    intro c hc
    rw [← htext]
    simp only [List.flatMap_append, List.flatMap_cons, List.flatMap_nil, Segment.text,
      List.append_nil, List.append_assoc, List.mem_append] at hc ⊢
    exact .inr (.inr (.inr (hc.imp_right .inl)))
  obtain ⟨rfl, rfl⟩ := eq_of_mem_encodePath hquote hgap hmem
  have hparted : encodePath path = (segs.flatMap Segment.text ++ word) ++
      'i' :: ("mport'".toList ++ (spec ++ back.flatMap Segment.text)) := by
    rw [← htext]
    simp [Segment.text, Form.word, importWord]
  obtain ⟨front, q, rfl, hfront, hq⟩ :=
    exists_of_encodePath_append_cons (by decide) (by decide) hparted
  obtain ⟨q, rfl, hspec⟩ := exists_of_encodePath_append (by decide) hq.symm
  obtain ⟨hne, -, hslash, -, -⟩ := isBare_iff.1 hbare
  cases q with
  | nil => exact absurd (List.append_eq_nil_iff.1 hspec).1 hne
  | cons d behind =>
    refine ⟨front, d, behind, spec, url, rest, ?_, ?_, hbare, hurl, ?_⟩
    · simp [importQuote, importWord]
    · rintro rfl
      cases spec with
      | nil => exact hne rfl
      | cons e spec =>
        obtain rfl : e = '/' := (List.cons.inj hspec).1
        exact hslash rfl
    · have hown : encodePath importQuote = importQuote := rfl
      rw [hpath', encodePath_append, hown, ← hfront]
      simp [Segment.text, Form.word, importQuote]

end ModuleServer.Import
