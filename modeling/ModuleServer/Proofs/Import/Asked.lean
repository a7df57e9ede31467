import ModuleServer.Proofs.Import.Pass
import ModuleServer.Proofs.Import.Related

/-!
# Questions that all have answers

Resolving imports fails at the first question without an answer, and only there: if each specifier
that is asked for on the way has an answer, whatever the state, there is a result
(`exists_resolveAll`). The first pass is taken on its own, and what it has noted stays noted in the
second.
-/

namespace ModuleServer.Import

variable {σ ε κ : Type}

section Questions

variable {ask : κ → σ → Except ε Text × σ}

/-- What has been noted stays noted. -/
theorem mem_noted_of_mem {x : κ} (specs : List κ) :
    ∀ {s log}, x ∈ log → x ∈ (askAll (noted ask) specs (s, log)).2.2 := by
  induction specs with
  | nil =>
    intro s log h
    exact h
  | cons spec specs ih =>
    intro s log h
    have hlog : x ∈ log ++ [spec] := List.mem_append_left _ h
    simp only [askAll, noted]
    rcases ask spec s with ⟨_ | url, s₁⟩
    · exact hlog
    · exact ih hlog

/-- Questions one after the other have answers if each of those that are asked has one. -/
theorem exists_askAll {specs : List κ} : ∀ {s log},
    (∀ spec ∈ (askAll (noted ask) specs (s, log)).2.2, ∀ s, ∃ url, (ask spec s).1 = .ok url) →
      ∃ urls s', askAll ask specs s = (.ok urls, s') := by
  induction specs with
  | nil =>
    intro s log _
    exact ⟨[], s, rfl⟩
  | cons spec specs ih =>
    intro s log h
    -- the first question is noted whatever comes of it
    have hfirst : spec ∈ (askAll (noted ask) (spec :: specs) (s, log)).2.2 := by
      have hlog : spec ∈ log ++ [spec] := List.mem_append_right _ (List.mem_singleton_self spec)
      simp only [askAll, noted]
      rcases ask spec s with ⟨_ | url, s₁⟩
      · exact hlog
      · exact mem_noted_of_mem specs hlog
    obtain ⟨url, hurl⟩ := h spec hfirst s
    obtain ⟨s₁, hask⟩ : ∃ s₁, ask spec s = (.ok url, s₁) := ⟨(ask spec s).2, Prod.ext hurl rfl⟩
    have hrest : ∀ x ∈ (askAll (noted ask) specs (s₁, log ++ [spec])).2.2,
        ∀ s, ∃ url, (ask x s).1 = .ok url := by
      intro x hx
      refine h x ?_
      simp only [askAll, noted, hask]
      exact hx
    obtain ⟨urls, s', hurls⟩ := ih hrest
    exact ⟨url :: urls, s', by simp only [askAll, hask, hurls, Except.map]⟩

end Questions

section Passes

variable {resolve : Resolution σ ε} {code : Text} {s : σ}

/-- One pass has a result if everything that it asks for has an answer. -/
theorem exists_replace {form : Form} {log : List Text}
    (h : ∀ spec ∈ (replace form (noted resolve) code (s, log)).2.2,
      ∀ s, ∃ url, (resolve spec s).1 = .ok url) :
    ∃ code' s' log', replace form resolve code s = (.ok code', s') ∧
      replace form (noted resolve) code (s, log) = (.ok code', (s', log')) := by
  obtain ⟨parts, rfl, hparts⟩ := exists_scans form true code
  rw [replace_of_scans _ hparts] at h
  obtain ⟨urls, s', hurls⟩ := exists_askAll h
  refine ⟨Part.textOf (Part.answered Specifier.isBare parts urls), s',
    log ++ Part.questions Specifier.isBare parts, ?_, ?_⟩
  · rw [replace_of_scans _ hparts, hurls]
    rfl
  · rw [replace_of_scans _ hparts, askAll_noted log hurls]
    rfl

/-- Imports are resolved if everything that is asked for on the way has an answer. -/
theorem exists_resolveAll
    (h : ∀ spec ∈ (resolveAll (noted resolve) code (s, [])).2.2,
      ∀ s, ∃ url, (resolve spec s).1 = .ok url) :
    ∃ code', (resolveAll resolve code s).1 = .ok code' := by
  have hkeeps : ∀ spec asked (state : σ × List Text), Specifier.isBare asked →
      spec ∈ state.2 → spec ∈ (noted resolve asked state).2.2 :=
    fun _ _ _ _ hmem => List.mem_append_left _ hmem
  have hfirst : ∀ spec ∈ (replace .clause (noted resolve) code (s, [])).2.2,
      ∀ s, ∃ url, (resolve spec s).1 = .ok url := by
    intro spec hspec
    refine h spec ?_
    rw [resolveAll]
    rcases hreplace : replace .clause (noted resolve) code (s, []) with ⟨_ | code₁, state₁⟩
    · rw [hreplace] at hspec
      exact hspec
    · rw [hreplace] at hspec
      exact replace_keeps (hkeeps spec) .sideEffect code₁ state₁ hspec
  obtain ⟨code₁, s₁, log₁, hplain, hnoted⟩ := exists_replace hfirst
  rw [resolveAll, hnoted] at h
  obtain ⟨code₂, s₂, -, hplain₂, -⟩ := exists_replace h
  refine ⟨code₂, ?_⟩
  rw [resolveAll, hplain]
  exact congrArg Prod.fst hplain₂

end Passes

end ModuleServer.Import
