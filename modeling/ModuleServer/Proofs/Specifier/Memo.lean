import Mathlib.Data.List.Dedup
import ModuleServer.Proofs.Import.Related
import ModuleServer.Server.Basic

/-!
# The memo

What the memo keeps is compared with a list of what has been found, in the order in which it was
found. `Memo.Holds` says that the two agree; one question to the memo keeps that
(`resolve_holds`), and gives what `lookUp` gives, as long as what has been found is still what
`lookUp` finds (`Current`).

* `noting_together`: a code is resolved alike over the memo and by noting what is found.
* `plain_together`: and alike with no memo at all.
-/

namespace ModuleServer

/-! ## Keys of a table -/

namespace Table

variable {α : Type}

theorem get?_eq_none_iff {t : Table α} {key : Text} : t.get? key = none ↔ key ∉ t.map Prod.fst := by
  induction t with
  | nil => simp [get?]
  | cons entry t ih =>
    obtain ⟨k, v⟩ := entry
    rw [get?_cons, List.map_cons, List.mem_cons]
    by_cases h : key = k
    · simp [h]
    · simp [h, ih]

theorem map_fst_set (t : Table α) (key : Text) (value : α) :
    (t.set key value).map Prod.fst =
      if key ∈ t.map Prod.fst then t.map Prod.fst else t.map Prod.fst ++ [key] := by
  induction t with
  | nil => simp [set]
  | cons entry t ih =>
    obtain ⟨k, v⟩ := entry
    by_cases h : k = key
    · simp [set, h]
    · have h' : key ≠ k := Ne.symm h
      simp only [set, if_neg h, List.map_cons, ih, List.mem_cons, h', false_or]
      split <;> rfl

theorem nodup_set {t : Table α} (h : (t.map Prod.fst).Nodup) (key : Text) (value : α) :
    ((t.set key value).map Prod.fst).Nodup := by
  rw [map_fst_set]
  split
  · exact h
  · rename_i hkey
    rw [List.nodup_append]
    refine ⟨h, by simp, ?_⟩
    intro a ha b hb hab
    rw [List.mem_singleton] at hb
    rw [hab, hb] at ha
    exact hkey ha

end Table

namespace Specifier

/-! ## What the memo holds -/

/-- Specifiers that have been found, with what they stand for, in order. -/
abbrev Found := List (Text × Resolved)

namespace Memo

/-- The memo is kept, has every specifier once, and holds exactly what has been found. -/
structure Holds (memo : Memo) (found : Found) : Prop where
  kept : ∃ t, memo = some t ∧ (t.map Prod.fst).Nodup
  get?_iff : ∀ spec r, memo.get? spec = some r ↔ (spec, r) ∈ found

theorem holds_clear {memo : Memo} {found : Found} (h : memo.Holds found) : memo.clear.Holds [] := by
  obtain ⟨t, rfl, _⟩ := h.kept
  refine ⟨⟨[], rfl, List.nodup_nil⟩, fun spec r => ?_⟩
  simp [clear, Memo.get?, Table.get?]

theorem get?_set (memo : Memo) (spec other : Text) (r : Resolved) (h : memo.isSome) :
    (memo.set spec r).get? other = if other = spec then some r else memo.get? other := by
  obtain ⟨t, rfl⟩ := Option.isSome_iff_exists.1 h
  simp only [Memo.get?, set, Option.map_some, Option.bind_some]
  exact Table.get?_set t spec other r

/-- The number of specifiers that are remembered is the number of those found. -/
theorem Holds.count_eq {memo : Memo} {found : Found} (h : memo.Holds found) :
    memo.count = (found.map Prod.fst).dedup.length := by
  obtain ⟨t, rfl, hnodup⟩ := h.kept
  have hmem : ∀ spec, spec ∈ t.map Prod.fst ↔ spec ∈ (found.map Prod.fst).dedup := by
    intro spec
    rw [List.mem_dedup]
    constructor
    · intro hspec
      have hsome : t.get? spec ≠ none := fun hn => Table.get?_eq_none_iff.1 hn hspec
      obtain ⟨r, hr⟩ := Option.ne_none_iff_exists'.1 hsome
      exact List.mem_map.2 ⟨(spec, r), (h.get?_iff spec r).1 hr, rfl⟩
    · intro hspec
      obtain ⟨⟨_, r⟩, hr, rfl⟩ := List.mem_map.1 hspec
      by_contra hnot
      have hnone : t.get? _ = none := Table.get?_eq_none_iff.2 hnot
      have hget : t.get? _ = some r := (h.get?_iff _ r).2 hr
      rw [hnone] at hget
      exact absurd hget (by simp)
  have hperm := (List.perm_ext_iff_of_nodup hnodup (List.nodup_dedup _)).2 hmem
  have hlen := hperm.length_eq
  rw [List.length_map] at hlen
  simpa [count] using hlen

end Memo

/-! ## One question -/

/-- What has been found is what is found now. -/
def Current (c : Config) (tree : FileTree) (found : Found) : Prop :=
  ∀ spec r, (spec, r) ∈ found → lookUp c tree spec = .ok r

/-- What has been found, after one more question. -/
def note (c : Config) (tree : FileTree) (spec : Text) (found : Found) : Found :=
  match lookUp c tree spec with
  | .ok r => found ++ [(spec, r)]
  | .error _ => found

theorem current_note {c : Config} {tree : FileTree} {found : Found} (h : Current c tree found)
    (spec : Text) : Current c tree (note c tree spec found) := by
  unfold note
  split
  · rename_i r hr
    intro other r' hmem
    rcases List.mem_append.1 hmem with hold | hnew
    · exact h other r' hold
    · obtain ⟨rfl, rfl⟩ := Prod.mk.inj (List.mem_singleton.1 hnew)
      exact hr
  · exact h

/-- The memo changes nothing about an answer, and holds afterwards what has been found with the
question noted. -/
theorem resolve_holds {c : Config} {tree : FileTree} {memo : Memo} {found : Found}
    (hholds : memo.Holds found) (hcur : Current c tree found) (spec : Text) :
    (resolve c tree spec memo).1 = lookUp c tree spec ∧
      (resolve c tree spec memo).2.Holds (note c tree spec found) := by
  unfold resolve
  cases hget : memo.get? spec with
  | some r =>
    have hmem : (spec, r) ∈ found := (hholds.get?_iff spec r).1 hget
    have hlook : lookUp c tree spec = .ok r := hcur spec r hmem
    refine ⟨hlook.symm, hholds.kept, fun other r' => ?_⟩
    -- what is found again is in the list already
    rw [hholds.get?_iff, note, hlook]
    constructor
    · intro hold
      exact List.mem_append_left _ hold
    · intro hnew
      rcases List.mem_append.1 hnew with hold | hnew
      · exact hold
      · rw [List.mem_singleton.1 hnew]
        exact hmem
  | none =>
    have hnot : ∀ r, (spec, r) ∉ found := by
      intro r hmem
      rw [(hholds.get?_iff spec r).2 hmem] at hget
      exact absurd hget (by simp)
    cases hlook : lookUp c tree spec with
    | error e =>
      refine ⟨rfl, ?_⟩
      simpa only [note, hlook] using hholds
    | ok r =>
      obtain ⟨t, rfl, hnodup⟩ := hholds.kept
      refine ⟨rfl, ⟨t.set spec r, rfl, Table.nodup_set hnodup spec r⟩, fun other r' => ?_⟩
      rw [Memo.get?_set _ _ _ _ rfl, note, hlook, List.mem_append, List.mem_singleton,
        Prod.mk.injEq]
      by_cases hother : other = spec
      · subst hother
        rw [if_pos rfl, Option.some.injEq]
        constructor
        · intro hr
          exact Or.inr ⟨rfl, hr.symm⟩
        · rintro (hold | ⟨-, hr⟩)
          · exact absurd hold (hnot r')
          · exact hr.symm
      · rw [if_neg hother, hholds.get?_iff]
        constructor
        · exact Or.inl
        · rintro (hold | ⟨heq, -⟩)
          · exact hold
          · exact absurd heq hother

/-- A failure leaves the memo as it is. -/
theorem resolve_of_error {c : Config} {tree : FileTree} {memo : Memo} {spec : Text} {e : Failure}
    (h : (resolve c tree spec memo).1 = .error e) : (resolve c tree spec memo).2 = memo := by
  unfold resolve at h ⊢
  cases hget : memo.get? spec with
  | some r => rfl
  | none =>
    rw [hget] at h
    cases hlook : lookUp c tree spec with
    | error e => rfl
    | ok r =>
      rw [hlook] at h
      simp at h

/-- Without a memo a question is what `lookUp` says, and there is no memo behind it either. -/
theorem resolve_none (c : Config) (tree : FileTree) (spec : Text) :
    resolve c tree spec none = (lookUp c tree spec, none) := by
  unfold resolve
  cases hlook : lookUp c tree spec with
  | error e => rfl
  | ok r => rfl

/-! ## A whole code -/

/-- The resolution in a file tree that notes what it finds. -/
def noting (c : Config) (tree : FileTree) : Import.Resolution Found Failure :=
  fun spec found => ((lookUp c tree spec).map Resolved.url, note c tree spec found)

theorem noting_together (c : Config) (tree : FileTree) :
    Import.Together (c.resolution tree) (noting c tree)
      (fun memo found => Memo.Holds memo found ∧ Current c tree found) (fun _ => False) := by
  refine ⟨?_, fun _ _ hbad => hbad⟩
  intro spec memo found hR
  have hres := resolve_holds hR.1 hR.2 spec
  left
  refine ⟨?_, hres.2, current_note hR.2 spec⟩
  simp only [Config.resolution, noting, hres.1]

theorem plain_together (c : Config) (tree : FileTree) :
    Import.Together (c.resolution tree) (noting c tree)
      (fun memo _ => memo = none) (fun _ => False) := by
  refine ⟨?_, fun _ _ hbad => hbad⟩
  intro spec memo found hmemo
  subst hmemo
  left
  simp only [Config.resolution, noting, resolve_none, and_self]

end Specifier

end ModuleServer
