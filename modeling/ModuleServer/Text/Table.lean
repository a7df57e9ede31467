import ModuleServer.Text.Basic

/-!
# Tables

Values under text keys, in the order in which the keys were first given. Giving a key again
replaces its value.

* `get?_set`, `get?_erase`: what is found after a value has been given or taken away.
-/

namespace ModuleServer

/-- Values under text keys. -/
abbrev Table (α : Type) := List (Text × α)

namespace Table

variable {α : Type}

/-- The value of a key. -/
def get? (key : Text) (t : Table α) : Option α :=
  t.lookup key

/-- The table with a value for a key. -/
def set (key : Text) (value : α) : Table α → Table α
  | [] => [(key, value)]
  | (k, v) :: rest => if k = key then (key, value) :: rest else (k, v) :: set key value rest

/-- The table without a key. -/
def erase (key : Text) (t : Table α) : Table α :=
  t.filter fun entry => entry.1 ≠ key

theorem get?_cons (key k : Text) (v : α) (t : Table α) :
    get? key ((k, v) :: t) = if key = k then some v else get? key t := by
  simp only [get?, List.lookup_cons]
  by_cases h : key = k
  · simp [h]
  · simp [h, beq_eq_false_iff_ne.2 h]

theorem get?_set (t : Table α) (key other : Text) (value : α) :
    (t.set key value).get? other = if other = key then some value else t.get? other := by
  induction t with
  | nil => simp [set, get?_cons]
  | cons entry t ih =>
    obtain ⟨k, v⟩ := entry
    simp only [set]
    by_cases hk : k = key
    · subst hk
      rw [if_pos rfl]
      simp only [get?_cons]
      by_cases ho : other = k <;> simp [ho]
    · rw [if_neg hk]
      simp only [get?_cons, ih]
      by_cases ho : other = k
      · subst ho
        simp [hk]
      · simp [ho]

theorem get?_erase (t : Table α) (key other : Text) :
    (t.erase key).get? other = if other = key then none else t.get? other := by
  induction t with
  | nil => simp [erase, get?]
  | cons entry t ih =>
    obtain ⟨k, v⟩ := entry
    simp only [erase, List.filter_cons] at ih ⊢
    by_cases hk : k = key
    · subst hk
      simp only [ne_eq, not_true_eq_false, decide_false, Bool.false_eq_true, ↓reduceIte, ih,
        get?_cons]
      by_cases ho : other = k <;> simp [ho]
    · simp only [ne_eq, hk, not_false_eq_true, decide_true, ↓reduceIte, get?_cons, ih]
      by_cases ho : other = k
      · subst ho
        simp [hk]
      · simp [ho]

end Table

end ModuleServer
