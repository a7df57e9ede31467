import ModuleServer.Text.Property

/-!
# Runs of characters

* `takeWhile_run`, `dropWhile_run`: a run of a class ends before a character of another class.
* `takeWhile_stop`, `dropWhile_stop`: nothing behind a member of another class counts.
* `headIs_dropWhile`, `exists_run`: a text is such a run and what stands behind it.
* `ne_of_class`, `ne_of_mem_run`: characters of different classes differ.
* `toNat_lt_of_isAlphanum`: the classes of letters and digits are ASCII.
* `trim_padded`: trimming takes the white space around a text away, and no more.
* `forall_white`, `forall_blank`: what is to be shown of white space is shown of its code points one
  by one.
-/

namespace ModuleServer.Text

variable {p : Char → Bool} {run rest : Text}

theorem ne_of_class {c d : Char} (hc : p c) (hd : p d = false) : c ≠ d := by
  rintro rfl
  simp [hc] at hd

/-- A character of another class does not occur in a run. -/
theorem ne_of_mem_run {d : Char} (h : run.all p) (hd : p d = false) : ∀ c ∈ run, c ≠ d :=
  fun c hc => ne_of_class (List.all_eq_true.1 h c hc) hd

/-- Letters and digits are ASCII. -/
theorem toNat_lt_of_isAlphanum {c : Char} (h : c.isAlphanum) : c.toNat < 0x80 := by
  have hle : c ≤ 'z' := by
    rcases Bool.or_eq_true_iff.1 h with halpha | hdigit
    · rcases Bool.or_eq_true_iff.1 halpha with hupper | hlower
      · exact Char.le_trans (of_decide_eq_true hupper).2 (by decide)
      · exact of_decide_eq_true (Bool.and_eq_true_iff.1 hlower).2
    · have hnine : c ≤ '9' := of_decide_eq_true (Bool.and_eq_true_iff.1 hdigit).2
      exact Char.le_trans hnine (by decide)
  exact Nat.lt_of_le_of_lt hle (by decide)

theorem takeWhile_run (h : run.all p) (hrest : headIs p rest = false) :
    (run ++ rest).takeWhile p = run := by
  rw [List.takeWhile_append_of_pos (List.all_eq_true.1 h)]
  cases rest with
  | nil => simp
  | cons c rest => simp_all [headIs]

theorem dropWhile_run (h : run.all p) (hrest : headIs p rest = false) :
    (run ++ rest).dropWhile p = rest := by
  rw [List.dropWhile_append_of_pos (List.all_eq_true.1 h)]
  cases rest with
  | nil => simp
  | cons c rest => simp_all [headIs]

theorem takeWhile_stop {α : Type} {q : α → Bool} (front : List α) {a : α} (behind : List α)
    (h : q a = false) : (front ++ a :: behind).takeWhile q = front.takeWhile q := by
  induction front with
  | nil => simp [h]
  | cons b front ih => cases hb : q b <;> simp [hb, ih]

theorem dropWhile_stop {α : Type} {q : α → Bool} (front : List α) {a : α} (behind : List α)
    (h : q a = false) :
    (front ++ a :: behind).dropWhile q = front.dropWhile q ++ a :: behind := by
  induction front with
  | nil => simp [h]
  | cons b front ih => cases hb : q b <;> simp [hb, ih]

theorem takeWhile_append_stop (hrest : headIs p rest = false) (t : Text) :
    (t ++ rest).takeWhile p = t.takeWhile p := by
  cases rest with
  | nil => rw [List.append_nil]
  | cons c rest => exact takeWhile_stop t rest hrest

theorem dropWhile_append_stop (hrest : headIs p rest = false) (t : Text) :
    (t ++ rest).dropWhile p = t.dropWhile p ++ rest := by
  cases rest with
  | nil => rw [List.append_nil, List.append_nil]
  | cons c rest => exact dropWhile_stop t rest hrest

/-- What stands behind a run that goes as far as it can does not go on with it. -/
theorem headIs_dropWhile (p : Char → Bool) (t : Text) : headIs p (t.dropWhile p) = false := by
  cases hrest : t.dropWhile p with
  | nil => rfl
  | cons c rest =>
    have hne : t.dropWhile p ≠ [] := by simp [hrest]
    have hhead := List.head_dropWhile_not p hne
    simpa [headIs, hrest] using hhead

/-- A text starts with a run of a class that goes as far as it can. -/
theorem exists_run (p : Char → Bool) (t : Text) :
    ∃ run rest, t = run ++ rest ∧ run.all p ∧ headIs p rest = false :=
  ⟨t.takeWhile p, t.dropWhile p, List.takeWhile_append_dropWhile.symm, List.all_takeWhile,
    headIs_dropWhile p t⟩

theorem headIs_eq_false (h : ∀ c ∈ run, p c = false) : headIs p run = false := by
  cases run with
  | nil => rfl
  | cons c run => exact h c List.mem_cons_self

theorem trimStart_cons {c : Char} (hc : isWhite c = false) (t : Text) :
    trimStart (c :: t) = c :: t := by
  rw [trimStart, List.dropWhile_cons, hc]
  rfl

/-- The text between white space is what is left of it. -/
theorem trim_padded {first t last : Text} (hfirst : first.all isWhite) (hlast : last.all isWhite)
    (hstart : headIs isWhite t = false) (hend : headIs isWhite t.reverse = false) :
    trim (first ++ t ++ last) = t := by
  have hlast' : last.reverse.all isWhite := by simpa using hlast
  cases t with
  | nil =>
    have hall : (first ++ last).all isWhite := by simp [hfirst, hlast]
    have hnone : (first ++ last).dropWhile isWhite = [] :=
      (congrArg _ (List.append_nil _).symm).trans (dropWhile_run hall rfl)
    simp [trim, trimStart, trimEnd, hnone]
  | cons c t =>
    have hbehind : headIs isWhite (c :: t ++ last) = false := hstart
    rw [trim, trimStart, List.append_assoc, dropWhile_run hfirst hbehind, trimEnd,
      List.reverse_append, dropWhile_run hlast' hend, List.reverse_reverse]

theorem trim_eq_self {t : Text} (hstart : headIs isWhite t = false)
    (hend : headIs isWhite t.reverse = false) : trim t = t := by
  have hnone : ([] : Text).all isWhite = true := rfl
  simpa using trim_padded hnone hnone hstart hend

theorem trim_enclosed {opening closing : Char} (hopening : isWhite opening = false)
    (hclosing : isWhite closing = false) (t : Text) :
    trim (opening :: (t ++ [closing])) = opening :: (t ++ [closing]) := by
  refine trim_eq_self hopening ?_
  simpa [headIs] using hclosing

/-- The code points of white space. -/
def whiteCodes : List Nat :=
  [0x9, 0xA, 0xB, 0xC, 0xD, 0x20, 0x85, 0xA0, 0x1680, 0x2000, 0x2001, 0x2002, 0x2003, 0x2004,
   0x2005, 0x2006, 0x2007, 0x2008, 0x2009, 0x200A, 0x2028, 0x2029, 0x202F, 0x205F, 0x3000]

/-- What holds of the white characters one by one holds of all of them. -/
theorem forall_white {P : Char → Prop} (h : ∀ n ∈ whiteCodes, P (Char.ofNat n)) {c : Char}
    (hc : isWhite c) : P c := by
  have hmem : c.toNat ∈ whiteCodes := by
    simp only [isWhite, inRanges, whiteRanges, List.any_cons, List.any_nil, Bool.or_eq_true,
      Bool.and_eq_true, decide_eq_true_eq, Bool.or_false] at hc
    simp only [whiteCodes, List.mem_cons, List.not_mem_nil, or_false]
    omega
  have hP := h c.toNat hmem
  rwa [Char.ofNat_toNat] at hP

/-- What holds of the blanks one by one holds of all of them. -/
theorem forall_blank {P : Char → Prop} (h : ∀ n < 33, isBlank (Char.ofNat n) → P (Char.ofNat n))
    {c : Char} (hc : isBlank c) : P c := by
  have hcode : c.toNat < 33 := by
    simp only [isBlank, Bool.or_eq_true, Bool.and_eq_true, decide_eq_true_eq] at hc
    rcases hc with rfl | hc
    · decide
    · omega
  have hP := h c.toNat hcode
  rw [Char.ofNat_toNat] at hP
  exact hP hc

end ModuleServer.Text
