import ModuleServer.Files.Path
import ModuleServer.Proofs.Text.Pieces

/-!
# Paths that stay below their start

A path in an address is read segment by segment over a stack of names. The stack only ever holds
ordinary segments (`ordinary_of_climb?`), so what `underRoot?` gives is its base, extended by
ordinary segments alone (`below_of_underRoot?`). It gives nothing exactly when a `..` meets the
empty stack (`underRoot?_eq_none_iff`).
-/

namespace ModuleServer

open Text

namespace Path

/-! ## Ordinary segments -/

/-- A segment that names an entry: not empty, not one or two dots, and without separators. -/
structure Ordinary (segment : Text) : Prop where
  ne_nil : segment ≠ []
  ne_here : segment ≠ ['.']
  ne_up : segment ≠ ['.', '.']
  no_separator : ∀ c ∈ segment, isSeparator c = false

/-- A path is a base extended by ordinary segments alone. -/
def Below (base path : Path) : Prop :=
  ∃ segments : List Text, (∀ s ∈ segments, Ordinary s) ∧ path = segments.foldl join base

theorem Below.join {base path : Path} {segment : Text} (h : Below base path)
    (hs : Ordinary segment) : Below base (path.join segment) := by
  obtain ⟨segments, hall, rfl⟩ := h
  refine ⟨segments ++ [segment], ?_, by simp⟩
  intro s hmem
  rcases List.mem_append.1 hmem with hold | hnew
  · exact hall s hold
  · rw [List.mem_singleton.1 hnew]
    exact hs

/-- The loop invariant of the stack: it holds ordinary segments alone. -/
theorem ordinary_of_climb? {segments stack out : List Text}
    (hsegments : ∀ s ∈ segments, ∀ c ∈ s, isSeparator c = false)
    (hstack : ∀ s ∈ stack, Ordinary s) (h : climb? stack segments = some out) :
    ∀ s ∈ out, Ordinary s := by
  induction segments generalizing stack with
  | nil =>
    simp only [climb?, Option.some.injEq] at h
    subst h
    exact hstack
  | cons segment rest ih =>
    have hrest : ∀ s ∈ rest, ∀ c ∈ s, isSeparator c = false :=
      fun s hs => hsegments s (List.mem_cons_of_mem _ hs)
    simp only [climb?] at h
    split at h
    · exact ih hrest hstack h
    · rename_i hidle
      obtain ⟨hnil, hhere⟩ := not_or.1 hidle
      split at h
      · cases stack with
        | nil => simp at h
        | cons top stack => exact ih hrest (fun s hs => hstack s (List.mem_cons_of_mem _ hs)) h
      · rename_i hup
        refine ih hrest ?_ h
        intro s hs
        rcases List.mem_cons.1 hs with rfl | hs
        · exact ⟨hnil, hhere, hup, hsegments s (List.mem_cons_self ..)⟩
        · exact hstack s hs

theorem ordinary_of_segments? {path : Path} {segments : List Text}
    (h : segments? path = some segments) : ∀ s ∈ segments, Ordinary s := by
  obtain ⟨stack, hstack, rfl⟩ := Option.map_eq_some_iff.1 h
  intro s hs
  exact ordinary_of_climb? (fun s hs => separator_of_mem_pieces hs) (by simp) hstack s
    (List.mem_reverse.1 hs)

theorem below_of_underRoot? {root path p : Path} (h : underRoot? root path = some p) :
    Below root p := by
  obtain ⟨segments, hsegments, rfl⟩ := Option.map_eq_some_iff.1 h
  exact ⟨segments, ordinary_of_segments? hsegments, rfl⟩

/-! ## Leading out -/

/-- Whether a segment is put on the stack. -/
def isName (segment : Text) : Bool :=
  segment ≠ [] && segment ≠ ['.'] && segment ≠ ['.', '.']

/-- The stack, `stack` at first, is empty where as many names have been taken off as there were on
it and as have been put on; the first `..` there leads out. -/
theorem climb?_eq_none_iff (segments stack : List Text) :
    climb? stack segments = none ↔ ∃ before after, segments = before ++ ['.', '.'] :: after ∧
      stack.length + before.countP isName = before.count ['.', '.'] := by
  induction segments generalizing stack with
  | nil => simp [climb?]
  | cons segment rest ih =>
    -- a cut of the segments is before the first of them, or a cut of the others
    have hcut : (∃ before after, segment :: rest = before ++ ['.', '.'] :: after ∧
        stack.length + before.countP isName = before.count ['.', '.']) ↔
        (segment = ['.', '.'] ∧ stack.length = 0) ∨
        ∃ before after, rest = before ++ ['.', '.'] :: after ∧
          stack.length + (segment :: before).countP isName =
            (segment :: before).count ['.', '.'] := by
      constructor
      · rintro ⟨_ | ⟨_, before⟩, after, heq, hcount⟩
        · obtain ⟨rfl, rfl⟩ := List.cons.inj heq
          exact Or.inl ⟨rfl, by simpa using hcount⟩
        · obtain ⟨rfl, rfl⟩ := List.cons.inj heq
          exact Or.inr ⟨before, after, rfl, hcount⟩
      · rintro (⟨rfl, hlen⟩ | ⟨before, after, rfl, hcount⟩)
        · exact ⟨[], rest, rfl, by simpa using hlen⟩
        · exact ⟨segment :: before, after, rfl, hcount⟩
    rw [hcut]
    simp only [climb?]
    by_cases hidle : segment = [] ∨ segment = ['.']
    · have hname : ¬ isName segment = true := by
        rcases hidle with rfl | rfl <;> decide
      have hup : segment ≠ ['.', '.'] := by
        rcases hidle with rfl | rfl <;> decide
      rw [if_pos hidle, ih stack]
      simp only [List.countP_cons_of_neg hname, List.count_cons_of_ne hup, hup, false_and, false_or]
    · rw [if_neg hidle]
      by_cases hup : segment = ['.', '.']
      · subst hup
        have hname : ¬ isName ['.', '.'] = true := by decide
        simp only [List.countP_cons_of_neg hname, List.count_cons_self, true_and, if_true]
        cases stack with
        | nil => simp
        | cons top stack =>
          have hlen : ∀ names ups : ℕ,
              stack.length + 1 + names = ups + 1 ↔ stack.length + names = ups := by
            intro names ups
            omega
          simp only [ih stack, hlen, List.length_cons, Nat.add_eq_zero_iff, Nat.one_ne_zero,
            and_false, false_or]
      · have hname : isName segment = true := by
          obtain ⟨hnil, hhere⟩ := not_or.1 hidle
          simp [isName, hnil, hhere, hup]
        have hlen : ∀ names : ℕ,
            stack.length + (names + 1) = (segment :: stack).length + names := by
          intro names
          rw [List.length_cons]
          omega
        rw [if_neg hup, ih (segment :: stack)]
        simp only [List.countP_cons_of_pos hname, List.count_cons_of_ne hup, hup, false_and,
          false_or, hlen]

/-- A path leads out exactly when, read from the left, some `..` meets an empty stack: as many
names as climbs stand before it. -/
theorem underRoot?_eq_none_iff (root path : Path) :
    underRoot? root path = none ↔ ∃ before after,
      pieces isSeparator path = before ++ ['.', '.'] :: after ∧
        before.countP isName = before.count ['.', '.'] := by
  rw [underRoot?, segments?, Option.map_eq_none_iff, Option.map_eq_none_iff, climb?_eq_none_iff]
  simp

end Path

end ModuleServer
