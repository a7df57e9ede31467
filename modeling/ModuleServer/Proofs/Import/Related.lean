import ModuleServer.Import.Resolution

/-!
# Resolutions that go together

What is asked of a resolution depends on the code and on earlier answers alone. So a fact about the
state that every question keeps is kept by a whole rewriting (`resolveAll_keeps`), and two
resolutions that give equal answers in related states give equal codes (`resolveAll_together`).

The second statement has a way out: the first state may turn bad, for good, and then nothing is
said about the answers. A state that notes what has been read is bad once it notes a file that the
other side sees differently.
-/

namespace ModuleServer.Import

variable {σ τ ε : Type}

/-! ## One resolution -/

section Keeps

variable {resolve : Resolution σ ε} {Inv : σ → Prop}
  (keeps : ∀ spec s, Specifier.isBare spec → Inv s → Inv (resolve spec s).2)

include keeps

theorem resolveSegments_keeps (segs : List Segment) :
    ∀ s, Inv s → Inv (resolveSegments resolve segs s).2 := by
  induction segs with
  | nil =>
    intro s hs
    exact hs
  | cons seg rest ih =>
    intro s hs
    cases seg with
    | verbatim t => exact ih s hs
    | specifier spec =>
      simp only [resolveSegments]
      split
      · rename_i hbare
        have hnext := keeps spec s hbare hs
        rcases hr : resolve spec s with ⟨_ | url, s'⟩
        · rw [hr] at hnext
          exact hnext
        · rw [hr] at hnext
          exact ih s' hnext
      · exact ih s hs

theorem replace_keeps (form : Form) (code : Text) (s : σ) (hs : Inv s) :
    Inv (replace form resolve code s).2 :=
  resolveSegments_keeps keeps _ s hs

/-- What every question keeps, a rewriting keeps. -/
theorem resolveAll_keeps (code : Text) (s : σ) (hs : Inv s) :
    Inv (resolveAll resolve code s).2 := by
  have h1 := replace_keeps keeps .clause code s hs
  unfold resolveAll
  rcases hr : replace .clause resolve code s with ⟨_ | code', s'⟩
  · rw [hr] at h1
    exact h1
  · rw [hr] at h1
    exact replace_keeps keeps .sideEffect code' s' h1

end Keeps

/-! ## Two resolutions -/

/-- Two resolutions give equal answers and stay related, until the first one's state turns bad,
which it is then for good. -/
structure Together (r₁ : Resolution σ ε) (r₂ : Resolution τ ε) (R : σ → τ → Prop)
    (Bad : σ → Prop) : Prop where
  step : ∀ spec s₁ s₂, R s₁ s₂ →
    ((r₁ spec s₁).1 = (r₂ spec s₂).1 ∧ R (r₁ spec s₁).2 (r₂ spec s₂).2) ∨ Bad (r₁ spec s₁).2
  stays : ∀ spec s₁, Bad s₁ → Bad (r₁ spec s₁).2

section Together

variable {r₁ : Resolution σ ε} {r₂ : Resolution τ ε} {R : σ → τ → Prop} {Bad : σ → Prop}
  (h : Together r₁ r₂ R Bad)

include h

theorem resolveSegments_together (segs : List Segment) :
    ∀ s₁ s₂, R s₁ s₂ →
      ((resolveSegments r₁ segs s₁).1 = (resolveSegments r₂ segs s₂).1 ∧
        R (resolveSegments r₁ segs s₁).2 (resolveSegments r₂ segs s₂).2) ∨
      Bad (resolveSegments r₁ segs s₁).2 := by
  induction segs with
  | nil =>
    intro s₁ s₂ hR
    exact Or.inl ⟨rfl, hR⟩
  | cons seg rest ih =>
    intro s₁ s₂ hR
    cases seg with
    | verbatim t =>
      rcases ih s₁ s₂ hR with ⟨heq, hR'⟩ | hbad
      · exact Or.inl ⟨by simp only [resolveSegments, heq], hR'⟩
      · exact Or.inr hbad
    | specifier spec =>
      by_cases hbare : Specifier.isBare spec
      · simp only [resolveSegments, if_pos hbare]
        have hstep := h.step spec s₁ s₂ hR
        have hstays := resolveSegments_keeps (fun spec s _ => h.stays spec s) rest
        rcases hr₁ : r₁ spec s₁ with ⟨a₁, s₁'⟩
        rcases hr₂ : r₂ spec s₂ with ⟨a₂, s₂'⟩
        rw [hr₁, hr₂] at hstep
        rcases hstep with ⟨heq, hR'⟩ | hbad
        · -- equal answers: both fail here, or both go on
          have heq : a₁ = a₂ := heq
          subst heq
          cases a₁ with
          | error e => exact Or.inl ⟨rfl, hR'⟩
          | ok url =>
            rcases ih s₁' s₂' hR' with ⟨hcode, hR''⟩ | hbad
            · exact Or.inl ⟨by simp only [hcode], hR''⟩
            · exact Or.inr hbad
        · cases a₁ with
          | error e => exact Or.inr hbad
          | ok url => exact Or.inr (hstays s₁' hbad)
      · simp only [resolveSegments, if_neg hbare]
        rcases ih s₁ s₂ hR with ⟨heq, hR'⟩ | hbad
        · exact Or.inl ⟨by simp only [heq], hR'⟩
        · exact Or.inr hbad

/-- Resolutions that go together rewrite a code to the same code. -/
theorem resolveAll_together (code : Text) (s₁ : σ) (s₂ : τ) (hR : R s₁ s₂) :
    ((resolveAll r₁ code s₁).1 = (resolveAll r₂ code s₂).1 ∧
      R (resolveAll r₁ code s₁).2 (resolveAll r₂ code s₂).2) ∨
    Bad (resolveAll r₁ code s₁).2 := by
  have h1 := resolveSegments_together h (segments .clause code) s₁ s₂ hR
  have hstays := fun form code =>
    replace_keeps (fun spec s _ => h.stays spec s) form code
  simp only [resolveAll]
  change (_ = (replace .clause r₂ code s₂).1 ∧ _) ∨ _ at h1
  rcases hr₁ : replace .clause r₁ code s₁ with ⟨a₁, s₁'⟩
  rcases hr₂ : replace .clause r₂ code s₂ with ⟨a₂, s₂'⟩
  change ((replace .clause r₁ code s₁).1 = _ ∧
    R (replace .clause r₁ code s₁).2 (replace .clause r₂ code s₂).2) ∨
    Bad (replace .clause r₁ code s₁).2 at h1
  rw [hr₁, hr₂] at h1
  rcases h1 with ⟨heq, hR'⟩ | hbad
  · have heq : a₁ = a₂ := heq
    subst heq
    cases a₁ with
    | error e => exact Or.inl ⟨rfl, hR'⟩
    | ok code' => exact resolveSegments_together h (segments .sideEffect code') s₁' s₂' hR'
  · cases a₁ with
    | error e => exact Or.inr hbad
    | ok code' => exact Or.inr (hstays .sideEffect code' s₁' hbad)

end Together

end ModuleServer.Import
