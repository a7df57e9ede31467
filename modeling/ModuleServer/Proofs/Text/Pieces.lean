import Mathlib.Data.List.Basic
import Mathlib.Data.List.Flatten
import Mathlib.Data.List.TakeDrop
import Mathlib.Data.List.TakeWhile
import ModuleServer.Text.Basic

/-!
# Pieces of a text

Splitting at separators is the library's splitting of lists (`pieces_eq_splitOnP`). The pieces of
two texts with a separator between them are those of either, so pieces put together with separators
come apart again (`pieces_flatMap`). `splitLast?` takes the last piece off
(`splitLast?_eq_some_iff`). Where no part of a list is longer than its counterpart in
another list, the lists are the same only if all parts are (`eq_of_flatMap_eq`).
-/

namespace ModuleServer.Text

theorem pieces_eq_splitOnP (separator : Char → Bool) (t : Text) :
    pieces separator t = t.splitOnP separator := by
  induction t with
  | nil => rfl
  | cons c t ih =>
    rw [pieces, ih, List.splitOnP_cons_eq_if_modifyHead]
    rcases ht : t.splitOnP separator with _ | ⟨p, ps⟩
    · exact absurd ht (List.splitOnP_ne_nil separator t)
    · rfl

theorem pieces_ne_nil (separator : Char → Bool) (t : Text) : pieces separator t ≠ [] := by
  rw [pieces_eq_splitOnP]
  exact fun h => List.splitOnP_ne_nil separator t h

/-- Only the empty text is one piece without characters. -/
theorem eq_nil_of_pieces {separator : Char → Bool} {t : Text} (h : pieces separator t = [[]]) :
    t = [] := by
  cases t with
  | nil => rfl
  | cons c t =>
    obtain ⟨p, ps, hp⟩ := List.exists_cons_of_ne_nil (pieces_ne_nil separator t)
    rw [pieces, hp] at h
    dsimp only at h
    split at h <;> simp at h

theorem pieces_congr {separator separator' : Char → Bool} {t : Text}
    (h : ∀ c ∈ t, separator c = separator' c) : pieces separator t = pieces separator' t := by
  induction t with
  | nil => rfl
  | cons c t ih =>
    obtain ⟨hc, ht⟩ := List.forall_mem_cons.1 h
    rw [pieces, pieces, ih ht, hc]

theorem separator_of_mem_pieces {separator : Char → Bool} {t piece : Text}
    (h : piece ∈ pieces separator t) : ∀ c ∈ piece, separator c = false := by
  rw [pieces_eq_splitOnP] at h
  induction t generalizing piece with
  | nil =>
    rw [List.splitOnP_nil, List.mem_singleton] at h
    subst h
    simp
  | cons c t ih =>
    rw [List.splitOnP_cons_eq_if_modifyHead] at h
    rcases ht : t.splitOnP separator with _ | ⟨p, ps⟩
    · exact absurd ht (List.splitOnP_ne_nil separator t)
    rw [ht] at h ih
    split at h
    · rcases List.mem_cons.1 h with rfl | hmem
      · simp
      · exact ih hmem
    · rename_i hc
      rcases List.mem_cons.1 h with rfl | hmem
      · intro x hx
        rcases List.mem_cons.1 hx with rfl | hx
        · simpa using hc
        · exact ih (List.mem_cons_self ..) x hx
      · exact ih (List.mem_cons_of_mem _ hmem)

theorem exists_mem_pieces {separator : Char → Bool} {c : Char} {t : Text} (hmem : c ∈ t)
    (hc : separator c = false) : ∃ piece ∈ pieces separator t, c ∈ piece := by
  induction t with
  | nil => cases hmem
  | cons d t ih =>
    obtain ⟨p, ps, hp⟩ := List.exists_cons_of_ne_nil (pieces_ne_nil separator t)
    rw [pieces, hp]
    dsimp only
    rcases List.mem_cons.1 hmem with rfl | hmem
    · rw [if_neg (by simp [hc])]
      exact ⟨c :: p, List.mem_cons_self, List.mem_cons_self⟩
    · obtain ⟨piece, hpiece, hmem⟩ := ih hmem
      rw [hp] at hpiece
      split
      · exact ⟨piece, List.mem_cons_of_mem _ hpiece, hmem⟩
      · rcases List.mem_cons.1 hpiece with rfl | hpiece
        · exact ⟨d :: piece, List.mem_cons_self, List.mem_cons_of_mem _ hmem⟩
        · exact ⟨piece, List.mem_cons_of_mem _ hpiece, hmem⟩

theorem pieces_append {separator : Char → Bool} {c : Char} (hc : separator c = true)
    (s t : Text) : pieces separator (s ++ c :: t) = pieces separator s ++ pieces separator t := by
  simp only [pieces_eq_splitOnP]
  exact List.splitOnP_append_cons s t hc

theorem pieces_of_no_separator {separator : Char → Bool} {t : Text}
    (h : ∀ c ∈ t, separator c = false) : pieces separator t = [t] := by
  rw [pieces_eq_splitOnP]
  exact List.splitOnP_eq_singleton h

/-- Pieces that hold no separator, each behind a separator, are the pieces of their text. -/
theorem pieces_flatMap {separator : Char → Bool} {c : Char} (hc : separator c = true) {first : Text}
    {others : List Text} (hfirst : ∀ d ∈ first, separator d = false)
    (hothers : ∀ t ∈ others, ∀ d ∈ t, separator d = false) :
    pieces separator (first ++ others.flatMap fun t => c :: t) = first :: others := by
  induction others generalizing first with
  | nil => simpa using pieces_of_no_separator hfirst
  | cons t others ih =>
    obtain ⟨ht, hothers⟩ := List.forall_mem_cons.1 hothers
    rw [List.flatMap_cons, List.cons_append, pieces_append hc, pieces_of_no_separator hfirst,
      ih ht hothers]
    rfl

/-- The last piece of a text goes on through all that follows it without a separator. -/
theorem exists_pieces_append {separator : Char → Bool} {w : Text}
    (hw : ∀ c ∈ w, separator c = false) (u : Text) :
    ∃ before v, pieces separator (u ++ w) = before ++ [v ++ w] := by
  induction u with
  | nil => exact ⟨[], [], pieces_of_no_separator hw⟩
  | cons c u ih =>
    obtain ⟨before, v, hpieces⟩ := ih
    rw [List.cons_append, pieces, hpieces]
    cases before with
    | nil =>
      dsimp only [List.nil_append]
      split
      · exact ⟨[[]], v, rfl⟩
      · exact ⟨[], c :: v, rfl⟩
    | cons p ps =>
      dsimp only [List.cons_append]
      split
      · exact ⟨[] :: p :: ps, v, rfl⟩
      · exact ⟨(c :: p) :: ps, v, rfl⟩

/-- A text is split at the last character of the class. -/
theorem splitLast?_eq_some_iff {p : Char → Bool} {t front behind : Text} :
    splitLast? p t = some (front, behind) ↔
      ∃ c, p c ∧ t = front ++ c :: behind ∧ ∀ d ∈ behind, p d = false := by
  unfold splitLast?
  rw [List.span_eq_takeWhile_dropWhile]
  constructor
  · intro h
    have hcut := List.takeWhile_append_dropWhile (p := fun c => !p c) (l := t.reverse)
    have hall : (t.reverse.takeWhile fun c => !p c).all fun c => !p c := List.all_takeWhile
    cases hrest : t.reverse.dropWhile fun c => !p c with
    | nil =>
      rw [hrest] at h
      cases h
    | cons c rest =>
      rw [hrest] at h hcut
      cases h
      have hc := List.head?_dropWhile_not (fun c => !p c) t.reverse
      rw [hrest] at hc
      have ht : t = (t.reverse.takeWhile (fun c => !p c) ++ c :: rest).reverse := by
        rw [hcut, List.reverse_reverse]
      refine ⟨c, by simpa using hc, by simpa using ht, ?_⟩
      · intro d hd
        simpa using List.all_eq_true.1 hall d (List.mem_reverse.1 hd)
  · rintro ⟨c, hc, rfl, hbehind⟩
    have hreverse : (front ++ c :: behind).reverse = behind.reverse ++ c :: front.reverse := by
      simp
    have hall : ∀ d ∈ behind.reverse, (!p d) = true := by
      intro d hd
      rw [hbehind d (List.mem_reverse.1 hd)]
      rfl
    rw [hreverse, List.takeWhile_append_of_pos hall, List.dropWhile_append_of_pos hall]
    simp [hc]

theorem splitLast?_eq_none_iff {p : Char → Bool} {t : Text} :
    splitLast? p t = none ↔ ∀ c ∈ t, p c = false := by
  constructor
  · intro h c hc
    unfold splitLast? at h
    rw [List.span_eq_takeWhile_dropWhile] at h
    cases hrest : t.reverse.dropWhile fun c => !p c with
    | nil =>
      rw [List.dropWhile_eq_nil_iff] at hrest
      simpa using hrest c (List.mem_reverse.2 hc)
    | cons d rest =>
      rw [hrest] at h
      cases h
  · intro h
    cases hsplit : splitLast? p t with
    | none => rfl
    | some parts =>
      obtain ⟨c, hc, rfl, -⟩ := splitLast?_eq_some_iff.1 hsplit
      exact absurd (hc.symm.trans (h c (by simp))) Bool.noConfusion

theorem not_mem_joined {c : Char} {separator : Text} {parts : List Text}
    (hseparator : c ∉ separator) (hparts : ∀ t ∈ parts, c ∉ t) :
    c ∉ joined separator parts := by
  induction parts with
  | nil => exact List.not_mem_nil
  | cons t parts ih =>
    obtain ⟨ht, hparts⟩ := List.forall_mem_cons.1 hparts
    cases parts with
    | nil => exact ht
    | cons u parts =>
      rw [joined, List.mem_append, List.mem_append, not_or, not_or]
      exact ⟨⟨ht, hseparator⟩, ih hparts⟩

/-- Parts that are left out of parts do not make up for each other. -/
theorem eq_of_flatMap_eq {α β : Type} {f g : α → List β} {as : List α}
    (h : ∀ a ∈ as, List.Sublist (f a) (g a)) (heq : as.flatMap f = as.flatMap g) :
    ∀ a ∈ as, f a = g a := by
  induction as with
  | nil => exact nofun
  | cons a as ih =>
    obtain ⟨ha, has⟩ := List.forall_mem_cons.1 h
    rw [List.flatMap_cons, List.flatMap_cons] at heq
    -- neither part can be shorter, since together they are not
    have hlength := congrArg List.length heq
    have hothers := (List.Sublist.flatMap_right as has).length_le
    have hlength' := ha.length_le
    rw [List.length_append, List.length_append] at hlength
    have hfirst : f a = g a := ha.eq_of_length (by omega)
    rw [hfirst, List.append_cancel_left_eq] at heq
    exact List.forall_mem_cons.2 ⟨hfirst, ih has heq⟩

end ModuleServer.Text
