import ModuleServer.Text.Basic

/-!
# First occurrences

* `has_eq_false`: a word does not occur where its first character does not, nor over a character
  that it does not hold (`has_append_cons`).
* `cut?_append`: a text is cut at a word behind characters that do not start it.
* `cut?_append_right`, `cut?_of_append`: where a text is cut does not depend on what stands behind
  what is left.
-/

namespace ModuleServer.Text

theorem cut?_eq_none {word t : Text} (h : has word t = false) : cut? word t = none := by
  simpa [has] using h

theorem has_of_cons {word t : Text} {c : Char} (h : has word (c :: t) = false) :
    after? word (c :: t) = none ∧ has word t = false := by
  have hnone := cut?_eq_none h
  rw [cut?] at hnone
  cases hafter : after? word (c :: t) with
  | some rest => simp [hafter] at hnone
  | none =>
    refine ⟨rfl, ?_⟩
    simpa [hafter, has] using hnone

theorem has_eq_false {c : Char} {word t : Text} (h : c ∉ t) : has (c :: word) t = false := by
  cases hcut : cut? (c :: word) t with
  | none => simp [has, hcut]
  | some p =>
    obtain ⟨before, behind⟩ := p
    exact absurd (eq_of_cut? hcut ▸ by simp) h

theorem cut?_append {c : Char} {word before : Text} (h : c ∉ before) (rest : Text) :
    cut? (c :: word) (before ++ (c :: word ++ rest)) = some (before, rest) := by
  induction before with
  | nil =>
    have hafter := after?_append (c :: word) rest
    rw [List.nil_append, List.cons_append, cut?, ← List.cons_append, hafter]
  | cons d before ih =>
    simp only [List.mem_cons, not_or] at h
    have hafter : after? (c :: word) (d :: (before ++ (c :: word ++ rest))) = none := by
      rw [after?, if_neg h.1]
    rw [List.cons_append, cut?, hafter, ih h.2]
    rfl

theorem after?_append_of_le {word t : Text} (h : word.length ≤ t.length) (rest : Text) :
    after? word (t ++ rest) = (after? word t).map (· ++ rest) := by
  induction word generalizing t with
  | nil => rfl
  | cons a word ih =>
    cases t with
    | nil => simp at h
    | cons c t =>
      rw [List.cons_append, after?, after?]
      split
      · exact ih (Nat.le_of_succ_le_succ h)
      · rfl

/-- A text that is cut is cut in the same place if more stands behind it. -/
theorem cut?_append_right {word t before behind : Text} (hne : word ≠ [])
    (h : cut? word t = some (before, behind)) (rest : Text) :
    cut? word (t ++ rest) = some (before, behind ++ rest) := by
  induction t generalizing before with
  | nil =>
    rw [cut?, if_neg (by simpa using hne)] at h
    cases h
  | cons c t ih =>
    have hle : word.length ≤ (c :: t).length := by
      have := length_of_cut? h
      omega
    rw [cut?] at h
    rw [List.cons_append, cut?, ← List.cons_append, after?_append_of_le hle]
    cases hafter : after? word (c :: t) with
    | some r =>
      rw [hafter] at h
      cases h
      rfl
    | none =>
      rw [hafter] at h
      obtain ⟨⟨before', behind'⟩, hcut, heq⟩ := Option.map_eq_some_iff.1 h
      cases heq
      simp only [Option.map_none, ih hcut, Option.map_some]

/-- A word that does not occur in a text does not occur in what stands between two parts of it. -/
theorem has_of_append {word front t behind : Text} (hne : word ≠ [])
    (h : has word (front ++ t ++ behind) = false) : has word t = false := by
  rw [List.append_assoc] at h
  have hbehind : has word (t ++ behind) = false := by
    induction front with
    | nil => exact h
    | cons c front ih => exact ih (has_of_cons h).2
  cases hcut : cut? word t with
  | none => simp [has, hcut]
  | some p =>
    have hsome := cut?_append_right hne hcut behind
    exact absurd (hsome.symm.trans (cut?_eq_none hbehind)) (Option.some_ne_none _)

/-- A word occurs in a text exactly if the text has it as a part. -/
theorem has_iff_isInfix {word t : Text} (hne : word ≠ []) : has word t ↔ word <:+: t := by
  constructor
  · intro h
    obtain ⟨⟨before, behind⟩, hcut⟩ := Option.isSome_iff_exists.1 h
    exact ⟨before, behind, (eq_of_cut? hcut).symm⟩
  · rintro ⟨front, behind, rfl⟩
    cases hhas : has word (front ++ word ++ behind) with
    | true => rfl
    | false =>
      have hself : has word word = false := has_of_append hne hhas
      cases word with
      | nil => exact absurd rfl hne
      | cons c word =>
        have hafter := after?_append (c :: word) []
        rw [List.append_nil, (has_of_cons hself).1] at hafter
        cases hafter

/-- A text is cut where it is cut if more stands behind what is left. -/
theorem cut?_of_append {word t before behind rest : Text}
    (h : cut? word (t ++ rest) = some (before, behind ++ rest)) :
    cut? word t = some (before, behind) := by
  have ht : t = before ++ word ++ behind := by
    have heq := eq_of_cut? h
    rw [← List.append_assoc] at heq
    exact List.append_cancel_right heq
  induction t generalizing before with
  | nil =>
    obtain ⟨hfront, rfl⟩ := List.append_eq_nil_iff.1 ht.symm
    obtain ⟨rfl, rfl⟩ := List.append_eq_nil_iff.1 hfront
    rfl
  | cons c t ih =>
    have hle : word.length ≤ (c :: t).length := by
      rw [ht, List.length_append, List.length_append]
      omega
    rw [List.cons_append, cut?, ← List.cons_append, after?_append_of_le hle] at h
    rw [cut?]
    cases hafter : after? word (c :: t) with
    | some r =>
      rw [hafter] at h
      obtain ⟨rfl, hr⟩ := Prod.mk.inj (Option.some.inj h)
      rw [List.append_cancel_right hr]
    | none =>
      rw [hafter] at h
      obtain ⟨⟨before', behind'⟩, hcut, heq⟩ := Option.map_eq_some_iff.1 h
      cases heq
      rw [ih hcut (List.cons.inj ht).2]
      rfl

/-- A word does not go on over a character that it does not hold. -/
theorem after?_append_of_not_mem {word : Text} {c : Char} (h : c ∉ word) (t rest : Text) :
    after? word (t ++ c :: rest) = (after? word t).map (· ++ c :: rest) := by
  induction word generalizing t with
  | nil => rfl
  | cons a word ih =>
    obtain ⟨ha, hword⟩ := not_or.1 (mt List.mem_cons.2 h)
    cases t with
    | nil => exact if_neg (Ne.symm ha)
    | cons d t =>
      rw [List.cons_append, after?, after?]
      split
      · exact ih hword t
      · rfl

theorem has_append_cons {word t rest : Text} {c : Char} (hne : word ≠ []) (hc : c ∉ word)
    (ht : has word t = false) (hrest : has word rest = false) :
    has word (t ++ c :: rest) = false := by
  have hcons : ∀ d u, after? word (d :: u) = none → has word u = false →
      has word (d :: u) = false := by
    intro d u hafter hu
    rw [has, cut?, hafter]
    simp [cut?_eq_none hu]
  induction t with
  | nil =>
    refine hcons c rest ?_ hrest
    have hnil : after? word [] = none := by
      cases word with
      | nil => exact absurd rfl hne
      | cons a word => rfl
    rw [← List.nil_append (c :: rest), after?_append_of_not_mem hc, hnil]
    rfl
  | cons d t ih =>
    obtain ⟨hafter, ht⟩ := has_of_cons ht
    refine hcons d (t ++ c :: rest) ?_ (ih ht)
    rw [← List.cons_append, after?_append_of_not_mem hc, hafter]
    rfl

/-- The word does not occur before the place where a text is cut. -/
theorem not_infix_of_cut? {word t before behind : Text} (hne : word ≠ [])
    (h : cut? word t = some (before, behind)) : ¬word <:+: before := by
  induction t generalizing before with
  | nil =>
    rw [cut?, if_neg (by simpa using hne)] at h
    cases h
  | cons c t ih =>
    rw [cut?] at h
    cases hafter : after? word (c :: t) with
    | some r =>
      rw [hafter] at h
      cases h
      simpa using hne
    | none =>
      rw [hafter] at h
      obtain ⟨⟨before', behind'⟩, hcut, heq⟩ := Option.map_eq_some_iff.1 h
      cases heq
      rw [List.infix_cons_iff]
      rintro (⟨r, hr⟩ | hinfix)
      · -- the word would start where the text does
        have ht : c :: t = word ++ (r ++ word ++ behind) := by
          rw [eq_of_cut? hcut, ← List.cons_append, ← List.cons_append, ← hr]
          simp only [List.append_assoc]
        rw [ht, after?_append] at hafter
        cases hafter
      · exact ih hcut hinfix

/-- A text is cut where the word comes first. -/
theorem length_le_of_cut? {word t before behind : Text} (h : cut? word t = some (before, behind)) :
    ∀ {a b : Text}, t = a ++ word ++ b → before.length ≤ a.length := by
  induction t generalizing before with
  | nil =>
    intro a b _
    rw [cut?] at h
    split at h
    · cases h
      exact Nat.zero_le _
    · cases h
  | cons c t ih =>
    intro a b ht
    rw [cut?] at h
    cases hafter : after? word (c :: t) with
    | some r =>
      rw [hafter] at h
      cases h
      exact Nat.zero_le _
    | none =>
      rw [hafter] at h
      obtain ⟨⟨before', behind'⟩, hcut, heq⟩ := Option.map_eq_some_iff.1 h
      cases heq
      cases a with
      | nil =>
        rw [ht, List.nil_append, after?_append] at hafter
        cases hafter
      | cons d a => exact Nat.succ_le_succ (ih hcut (List.cons.inj ht).2)

/-- A word that ends a text occurs in it for a first time, which is the first time whatever stands
behind the text. -/
theorem exists_first_occurrence {word : Text} (hne : word ≠ []) (t : Text) :
    ∃ before behind, t ++ word = before ++ word ++ behind ∧
      ∀ rest a b, t ++ word ++ rest = a ++ word ++ b → before.length ≤ a.length := by
  have hhas : has word (t ++ word) := (has_iff_isInfix hne).2 (List.suffix_append t word).isInfix
  obtain ⟨⟨before, behind⟩, hcut⟩ := Option.isSome_iff_exists.1 hhas
  exact ⟨before, behind, eq_of_cut? hcut, fun rest _ _ heq =>
    length_le_of_cut? (cut?_append_right hne hcut rest) heq⟩

/-- A text is cut at the first occurrence of a character. -/
theorem cut?_singleton_iff {c : Char} {t a b : Text} :
    cut? [c] t = some (a, b) ↔ t = a ++ c :: b ∧ c ∉ a := by
  constructor
  · intro h
    refine ⟨by rw [eq_of_cut? h]; simp, fun hmem => ?_⟩
    obtain ⟨u, v, rfl⟩ := List.append_of_mem hmem
    exact not_infix_of_cut? (by simp) h ⟨u, v, by simp⟩
  · rintro ⟨rfl, h⟩
    exact cut?_append h b

end ModuleServer.Text
