import ModuleServer.Expression.Name
import ModuleServer.Proofs.Text.Pieces
import ModuleServer.Proofs.Text.Run

/-!
# Words of a text

A name stands in a text as a word if no character of a name touches it (`IsWordIn`). The words of a
text are what stands between its other characters (`mem_words_iff`). So the words of two texts with
such a character between them are those of either (`words_append_cons`), whatever the texts are.
-/

namespace ModuleServer.Expression

open Text

theorem isNameChar_of_isAlphanum {c : Char} (h : c.isAlphanum) : isNameChar c := by
  have hlast : c.val ≤ 'Z'.val ∨ c.val ≤ 'z'.val ∨ c.val ≤ '9'.val := by
    rcases Bool.or_eq_true_iff.1 h with h | h
    · rcases Bool.or_eq_true_iff.1 h with h | h
      · exact .inl (of_decide_eq_true h).2
      · exact .inr (.inl (of_decide_eq_true (Bool.and_eq_true_iff.1 h).2))
    · exact .inr (.inr (of_decide_eq_true (Bool.and_eq_true_iff.1 h).2))
  have hcode : c.toNat < 0x80 := by
    rcases hlast with hlast | hlast | hlast <;>
      exact Nat.lt_of_le_of_lt (UInt32.le_iff_toNat_le.1 hlast) (by decide)
  have hclass : isAlphanumeric c = c.isAlphanum := by
    rw [isAlphanumeric, isAlphabetic, if_pos hcode, if_pos hcode]
    rfl
  rw [isNameChar, hclass, h]
  rfl

theorem isNameChar_of_isWordChar {c : Char} (h : isWordChar c) : isNameChar c := by
  rw [isWordChar, Bool.or_eq_true, decide_eq_true_eq] at h
  rcases h with h | rfl
  · exact isNameChar_of_isAlphanum h
  · decide

/-- Characters of a name stand in a text, and neither right before them nor right behind them is
another. -/
def IsWordIn (word t : Text) : Prop :=
  word.all isNameChar ∧ ∃ before behind, t = before ++ word ++ behind ∧
    headIs isNameChar before.reverse = false ∧ headIs isNameChar behind = false

/-- What stands between the characters of a text that are in no name. -/
def words (t : Text) : List Text :=
  pieces (fun c => !isNameChar c) t

variable {word s t : Text} {c : Char}

theorem words_append_cons (hc : isNameChar c = false) (s t : Text) :
    words (s ++ c :: t) = words s ++ words t :=
  pieces_append (by rw [hc]; rfl) s t

theorem words_of_all (h : t.all isNameChar) : words t = [t] := by
  refine pieces_of_no_separator fun c hc => ?_
  rw [List.all_eq_true.1 h c hc]
  rfl

/-- A text that does not start with a character of a name is empty or has another in front. -/
theorem eq_nil_or_cons_of_headIs (h : headIs isNameChar t = false) :
    t = [] ∨ ∃ c rest, t = c :: rest ∧ isNameChar c = false := by
  cases t with
  | nil => exact .inl rfl
  | cons c rest => exact .inr ⟨c, rest, rfl, h⟩

theorem isWordIn_of_mem_words {word t : Text} (h : word ∈ words t) : IsWordIn word t := by
  obtain ⟨run, rest, rfl, hrun, hrest⟩ := exists_run isNameChar t
  rcases eq_nil_or_cons_of_headIs hrest with rfl | ⟨c, rest, rfl, hc⟩
  · rw [List.append_nil, words_of_all hrun] at h
    obtain rfl := List.mem_singleton.1 h
    exact ⟨hrun, [], [], by simp, rfl, rfl⟩
  · rw [words_append_cons hc, words_of_all hrun, List.singleton_append] at h
    rcases List.mem_cons.1 h with rfl | h
    · exact ⟨hrun, [], c :: rest, rfl, rfl, hc⟩
    · obtain ⟨hword, before, behind, rfl, hbefore, hbehind⟩ := isWordIn_of_mem_words h
      refine ⟨hword, run ++ c :: before, behind, by simp, ?_, hbehind⟩
      -- what stands before the word ends as it did, or with the character that parts
      rw [List.reverse_append, List.reverse_cons]
      cases hreverse : before.reverse with
      | nil => exact hc
      | cons d before' =>
        rw [hreverse] at hbefore
        exact hbefore
termination_by t.length
decreasing_by
  simp only [*, List.length_append, List.length_cons]
  omega

theorem mem_words_of_isWordIn (h : IsWordIn word t) : word ∈ words t := by
  obtain ⟨hword, before, behind, rfl, hbefore, hbehind⟩ := h
  have hfirst : word ∈ words (word ++ behind) := by
    rcases eq_nil_or_cons_of_headIs hbehind with rfl | ⟨c, rest, rfl, hc⟩
    · rw [List.append_nil, words_of_all hword]
      exact List.mem_singleton.2 rfl
    · rw [words_append_cons hc, words_of_all hword]
      exact List.mem_cons_self ..
  rcases eq_nil_or_cons_of_headIs hbefore with hnil | ⟨c, rest, hcons, hc⟩
  · rw [List.reverse_eq_nil_iff.1 hnil]
    exact hfirst
  · rw [List.reverse_eq_cons_iff.1 hcons, List.append_assoc, List.append_assoc,
      List.singleton_append, words_append_cons hc]
    exact List.mem_append_right _ hfirst

/-- The words of a text are what stands in it by itself. -/
theorem mem_words_iff : word ∈ words t ↔ IsWordIn word t :=
  ⟨isWordIn_of_mem_words, mem_words_of_isWordIn⟩

end ModuleServer.Expression
