import Mathlib.Data.List.Induction
import Mathlib.Data.List.Nodup
import Mathlib.Logic.Function.Basic
import ModuleServer.Freshness

/-!
# Tokens taken at once

The last token is shared: any number of calls take tokens at once, and what one does may come between
any two things that another does. A call reads the clock, loads the last token, and tries to exchange
it for its own; if the last token is another by then, or for no reason at all, the exchange is
refused and the call tries again with what it has seen instead. Behind the exchange it makes its
token a second time, from the reading and from what it last saw.

* `Calls.step?` is one move of one call, and `Calls.step?_cases` all that a move can do.
* `Calls.Inv`: what holds of every state that moves lead to (`Calls.inv_step`, `Calls.inv_run`).
* `Calls.returned_increase`: the tokens returned increase in the order of the exchanges, whatever the
  clock and whatever the order of the moves.
-/

namespace ModuleServer.Clock

/-- What a call reads off a clock that stands at a time in milliseconds, counted from the epoch: zero
before it, and no more than the greatest token. -/
def reading (time : Int) : Nat :=
  min time.toNat limit

/-- A token is at least the reading that it is made from. -/
theorem reading_le_tick (c : Clock) (time : Int) : reading time ≤ c.tick (reading time) := by
  unfold reading tick
  omega

theorem tick_le_limit (c : Clock) (reading : Nat) : c.tick reading ≤ limit := by
  unfold tick
  omega

/-- A token is greater than the ones up to the last, as long as these are not the greatest. -/
theorem lt_tick_of_le {c : Clock} {token : Nat} (h : token ≤ c.last) (hbound : token ≤ limit)
    (hne : token ≠ limit) (reading : Nat) : token < c.tick reading := by
  unfold tick
  omega

/-! ## Moves -/

/-- Where a call stands. -/
inductive Stage where
  /-- It has done nothing. -/
  | waiting
  /-- It has read the clock. -/
  | ready (reading : Nat)
  /-- It has seen a last token, and has yet to exchange it. -/
  | trying (reading seen : Nat)
  /-- It has exchanged the token it saw for its own. -/
  | stored (reading seen : Nat)
  /-- It has returned. -/
  | returned (token : Nat)
deriving DecidableEq, Repr

/-- A move of a call. -/
inductive Move where
  /-- The clock is read while it stands at a time. -/
  | read (call : Nat) (time : Int)
  /-- The last token is loaded. -/
  | look (call : Nat)
  /-- An exchange is tried. It may be refused for no reason. -/
  | exchange (call : Nat) (refused : Bool)
  /-- The call returns. -/
  | give (call : Nat)
deriving DecidableEq, Repr

/-- An exchange that took place. -/
structure Update where
  /-- The call that made it. -/
  call : Nat
  /-- The token that it stored. -/
  stored : Nat
deriving DecidableEq, Repr

/-- Calls that share a last token. -/
structure Calls where
  /-- The last token. -/
  clock : Clock
  /-- Where each call stands. -/
  stage : Nat → Stage
  /-- The exchanges so far, in the order in which they took place. -/
  updates : List Update

namespace Calls

/-- No call has done anything. -/
def start (clock : Clock) : Calls :=
  ⟨clock, fun _ => .waiting, []⟩

/-- The calls with one of them moved on. -/
def goTo (s : Calls) (call : Nat) (stage : Stage) : Calls :=
  { s with stage := Function.update s.stage call stage }

/-- The calls with a token exchanged by one of them. -/
def store (s : Calls) (call reading seen : Nat) : Calls where
  clock := (Clock.mk seen).advance reading
  stage := Function.update s.stage call (.stored reading seen)
  updates := s.updates ++ [⟨call, (Clock.mk seen).tick reading⟩]

/-- The calls behind a move, if the call is where it can make it. -/
def step? (s : Calls) : Move → Option Calls
  | .read call time =>
    match s.stage call with
    | .waiting => some (s.goTo call (.ready (reading time)))
    | _ => none
  | .look call =>
    match s.stage call with
    | .ready reading => some (s.goTo call (.trying reading s.clock.last))
    | _ => none
  | .exchange call refused =>
    match s.stage call with
    | .trying reading seen =>
      if s.clock.last = seen ∧ refused = false then some (s.store call reading seen)
      else some (s.goTo call (.trying reading s.clock.last))
    | _ => none
  | .give call =>
    match s.stage call with
    | .stored reading seen => some (s.goTo call (.returned ((Clock.mk seen).tick reading)))
    | _ => none

/-- The calls behind moves. -/
def run? (s : Calls) (moves : List Move) : Option Calls :=
  moves.foldlM step? s

/-- The exchanges of the calls that have returned, each with the token that was returned. -/
def returned (s : Calls) : List (Update × Nat) :=
  s.updates.filterMap fun u =>
    match s.stage u.call with
    | .returned token => some (u, token)
    | _ => none

variable {s s' : Calls} {moves : List Move} {m : Move} {call other : Nat} {stage : Stage}

/-- All that a move can do. -/
theorem step?_cases (h : s.step? m = some s') :
    (∃ call time, m = .read call time ∧ s.stage call = .waiting ∧
      s' = s.goTo call (.ready (reading time))) ∨
    (∃ call reading, m = .look call ∧ s.stage call = .ready reading ∧
      s' = s.goTo call (.trying reading s.clock.last)) ∨
    (∃ call refused reading seen, m = .exchange call refused ∧
      s.stage call = .trying reading seen ∧ s' = s.goTo call (.trying reading s.clock.last)) ∨
    (∃ call reading, m = .exchange call false ∧ s.stage call = .trying reading s.clock.last ∧
      s' = s.store call reading s.clock.last) ∨
    (∃ call reading seen, m = .give call ∧ s.stage call = .stored reading seen ∧
      s' = s.goTo call (.returned ((Clock.mk seen).tick reading))) := by
  cases m with
  | read call time =>
    simp only [step?] at h
    split at h
    · rename_i hstage
      exact .inl ⟨call, time, rfl, hstage, (Option.some.inj h).symm⟩
    · cases h
  | look call =>
    simp only [step?] at h
    split at h
    · rename_i reading hstage
      exact .inr (.inl ⟨call, reading, rfl, hstage, (Option.some.inj h).symm⟩)
    · cases h
  | exchange call refused =>
    simp only [step?] at h
    split at h
    · rename_i reading seen hstage
      split at h
      · rename_i hsame
        obtain ⟨rfl, rfl⟩ := hsame
        exact .inr (.inr (.inr (.inl ⟨call, reading, rfl, hstage, (Option.some.inj h).symm⟩)))
      · exact .inr (.inr (.inl
          ⟨call, refused, reading, seen, rfl, hstage, (Option.some.inj h).symm⟩))
    · cases h
  | give call =>
    simp only [step?] at h
    split at h
    · rename_i reading seen hstage
      exact .inr (.inr (.inr (.inr ⟨call, reading, seen, rfl, hstage, (Option.some.inj h).symm⟩)))
    · cases h

/-! ## What every state has -/

/-- A call has read the clock, and this is what it read. -/
def HasRead (moves : List Move) (call r : Nat) : Prop :=
  (∃ time, Move.read call time ∈ moves) ∧ ∀ time, Move.read call time ∈ moves → reading time = r

/-- What the stage of a call says of the moves and of the exchanges so far. -/
def Agrees (moves : List Move) (updates : List Update) (call : Nat) : Stage → Prop
  | .waiting => (∀ time, Move.read call time ∉ moves) ∧ ∀ u ∈ updates, u.call ≠ call
  | .ready r => HasRead moves call r ∧ ∀ u ∈ updates, u.call ≠ call
  | .trying r _ => HasRead moves call r ∧ ∀ u ∈ updates, u.call ≠ call
  | .stored r seen =>
    HasRead moves call r ∧ r ≤ (Clock.mk seen).tick r ∧
      Update.mk call ((Clock.mk seen).tick r) ∈ updates
  | .returned token => ∃ r, HasRead moves call r ∧ r ≤ token ∧ Update.mk call token ∈ updates

/-- What holds of every state that moves lead to. -/
structure Inv (moves : List Move) (s : Calls) : Prop where
  /-- No token stored is greater than the last one or than the greatest. -/
  bounded : ∀ u ∈ s.updates, u.stored ≤ s.clock.last ∧ u.stored ≤ limit
  /-- The tokens stored increase. -/
  increasing : s.updates.Pairwise fun u v => u.stored ≠ limit → u.stored < v.stored
  /-- No call stores twice. -/
  once : (s.updates.map Update.call).Nodup
  /-- Every call is where its moves have led it. -/
  agrees : ∀ call, Agrees moves s.updates call (s.stage call)

theorem inv_start (clock : Clock) : Inv [] (start clock) where
  bounded := by simp [start]
  increasing := .nil
  once := .nil
  agrees := by
    intro call
    exact ⟨by simp, by simp [start]⟩

/-! ## One move -/

theorem HasRead.concat {r : Nat} (h : HasRead moves call r) (hm : ∀ time, m ≠ .read call time) :
    HasRead (moves ++ [m]) call r := by
  obtain ⟨⟨time, hread⟩, hall⟩ := h
  refine ⟨⟨time, List.mem_append_left _ hread⟩, fun time hread => ?_⟩
  rcases List.mem_append.1 hread with hread | hread
  · exact hall time hread
  · exact absurd (List.mem_singleton.1 hread).symm (hm time)

/-- A reading of the clock by another call, and any other move, says nothing new of a call. -/
theorem Agrees.concat {updates : List Update} (h : Agrees moves updates call stage)
    (hm : ∀ time, m ≠ .read call time) : Agrees (moves ++ [m]) updates call stage := by
  cases stage with
  | waiting =>
    refine ⟨fun time hread => ?_, h.2⟩
    rcases List.mem_append.1 hread with hread | hread
    · exact h.1 time hread
    · exact hm time (List.mem_singleton.1 hread).symm
  | ready r => exact ⟨h.1.concat hm, h.2⟩
  | trying r seen => exact ⟨h.1.concat hm, h.2⟩
  | stored r seen => exact ⟨h.1.concat hm, h.2⟩
  | returned token =>
    obtain ⟨r, hread, hstored⟩ := h
    exact ⟨r, hread.concat hm, hstored⟩

/-- An exchange by another call says nothing new of a call. -/
theorem Agrees.update {updates : List Update} {u : Update} (h : Agrees moves updates call stage)
    (hu : u.call ≠ call) : Agrees moves (updates ++ [u]) call stage := by
  have hnone : (∀ v ∈ updates, v.call ≠ call) → ∀ v ∈ updates ++ [u], v.call ≠ call := by
    intro hupdates v hv
    rcases List.mem_append.1 hv with hv | hv
    · exact hupdates v hv
    · rw [List.mem_singleton.1 hv]
      exact hu
  cases stage with
  | waiting => exact ⟨h.1, hnone h.2⟩
  | ready r => exact ⟨h.1, hnone h.2⟩
  | trying r seen => exact ⟨h.1, hnone h.2⟩
  | stored r seen => exact ⟨h.1, h.2.1, List.mem_append_left _ h.2.2⟩
  | returned token =>
    obtain ⟨r, hread, hle, hmem⟩ := h
    exact ⟨r, hread, hle, List.mem_append_left _ hmem⟩

/-- A move that exchanges nothing keeps what holds, if the call goes where its moves have led it. -/
theorem Inv.goTo (h : Inv moves s) (hm : ∀ other time, m = .read other time → other = call)
    (hstage : Agrees (moves ++ [m]) s.updates call stage) :
    Inv (moves ++ [m]) (s.goTo call stage) where
  bounded := h.bounded
  increasing := h.increasing
  once := h.once
  agrees := by
    intro other
    by_cases heq : other = call
    · subst heq
      simpa [Calls.goTo] using hstage
    · have hother := (h.agrees other).concat fun time hread => heq (hm other time hread)
      simpa [Calls.goTo, Function.update_of_ne heq] using hother

/-- An exchange stores a token greater than those before it. -/
theorem Inv.store {r : Nat} (h : Inv moves s) (hstage : s.stage call = .trying r s.clock.last) :
    Inv (moves ++ [.exchange call false]) (s.store call r s.clock.last) := by
  obtain ⟨hread, hnone⟩ : HasRead moves call r ∧ ∀ u ∈ s.updates, u.call ≠ call := by
    have hagrees := h.agrees call
    rw [hstage] at hagrees
    exact hagrees
  refine ⟨?_, ?_, ?_, ?_⟩
  · intro u hu
    show u.stored ≤ s.clock.tick r ∧ u.stored ≤ limit
    rcases List.mem_append.1 hu with hu | hu
    · obtain ⟨hlast, hbound⟩ := h.bounded u hu
      by_cases hlimit : u.stored = limit
      · rw [hlimit] at hlast ⊢
        refine ⟨?_, Nat.le_refl _⟩
        unfold tick
        omega
      · exact ⟨Nat.le_of_lt (lt_tick_of_le hlast hbound hlimit r), hbound⟩
    · obtain rfl := List.mem_singleton.1 hu
      exact ⟨Nat.le_refl _, tick_le_limit _ r⟩
  · refine List.pairwise_append.2 ⟨h.increasing, List.pairwise_singleton _ _, ?_⟩
    intro u hu v hv hlimit
    obtain rfl := List.mem_singleton.1 hv
    obtain ⟨hlast, hbound⟩ := h.bounded u hu
    exact lt_tick_of_le hlast hbound hlimit r
  · show ((s.updates ++ [_]).map Update.call).Nodup
    rw [List.map_append, List.nodup_append]
    refine ⟨h.once, List.pairwise_singleton _ _, ?_⟩
    intro a ha b hb
    obtain ⟨u, hu, rfl⟩ := List.mem_map.1 ha
    obtain rfl := List.mem_singleton.1 hb
    exact hnone u hu
  · intro other
    by_cases heq : other = call
    · subst heq
      have hstored : (s.store other r s.clock.last).stage other = .stored r s.clock.last := by
        simp [Calls.store]
      obtain ⟨⟨time, hmem⟩, hall⟩ := id hread
      have hle : r ≤ (Clock.mk s.clock.last).tick r := by
        rw [← hall time hmem]
        exact reading_le_tick _ time
      rw [hstored]
      exact ⟨hread.concat nofun, hle, List.mem_append_right _ List.mem_cons_self⟩
    · have hother := ((h.agrees other).update
        (u := ⟨call, (Clock.mk s.clock.last).tick r⟩) (Ne.symm heq)).concat
          (m := .exchange call false) nofun
      simpa [Calls.store, Function.update_of_ne heq] using hother

/-- A move keeps what holds of every state. -/
theorem inv_step (h : Inv moves s) (hstep : s.step? m = some s') : Inv (moves ++ [m]) s' := by
  rcases step?_cases hstep with ⟨call, time, rfl, hstage, rfl⟩ | ⟨call, r, rfl, hstage, rfl⟩ |
    ⟨call, refused, r, seen, rfl, hstage, rfl⟩ | ⟨call, r, rfl, hstage, rfl⟩ |
    ⟨call, r, seen, rfl, hstage, rfl⟩
  · have hagrees := h.agrees call
    rw [hstage] at hagrees
    refine h.goTo (by simp) ⟨⟨⟨time, by simp⟩, fun time' hread => ?_⟩, hagrees.2⟩
    rcases List.mem_append.1 hread with hread | hread
    · exact absurd hread (hagrees.1 time')
    · have htime : time' = time := by simpa using hread
      rw [htime]
  · have hagrees := h.agrees call
    rw [hstage] at hagrees
    exact h.goTo nofun ⟨hagrees.1.concat nofun, hagrees.2⟩
  · have hagrees := h.agrees call
    rw [hstage] at hagrees
    exact h.goTo nofun ⟨hagrees.1.concat nofun, hagrees.2⟩
  · exact h.store hstage
  · have hagrees := h.agrees call
    rw [hstage] at hagrees
    exact h.goTo nofun ⟨r, hagrees.1.concat nofun, hagrees.2⟩

/-! ## Any number of moves -/

/-- What holds of every state holds of the one that moves lead to. -/
theorem inv_run {clock : Clock} (h : (start clock).run? moves = some s) : Inv moves s := by
  induction moves using List.reverseRecOn generalizing s with
  | nil =>
    obtain rfl : start clock = s := Option.some.inj h
    exact inv_start clock
  | append_singleton moves m ih =>
    rw [run?, List.foldlM_append] at h
    obtain ⟨s₁, hmoves, hlast⟩ := Option.bind_eq_some_iff.1 h
    refine inv_step (ih hmoves) ?_
    simpa using hlast

theorem mem_returned {u : Update} {token : Nat} :
    (u, token) ∈ s.returned ↔ u ∈ s.updates ∧ s.stage u.call = .returned token := by
  rw [returned, List.mem_filterMap]
  constructor
  · rintro ⟨v, hv, hstage⟩
    split at hstage
    · rename_i hreturned
      obtain ⟨rfl, rfl⟩ := Prod.mk.inj (Option.some.inj hstage)
      exact ⟨hv, hreturned⟩
    · cases hstage
  · rintro ⟨hu, hstage⟩
    exact ⟨u, hu, by rw [hstage]⟩

/-- A call that has returned has returned what it stored, since it has stored but once. -/
theorem Inv.stored_eq {u : Update} {token : Nat} (h : Inv moves s) (hu : u ∈ s.updates)
    (hstage : s.stage u.call = .returned token) : u.stored = token := by
  have hagrees := h.agrees u.call
  rw [hstage] at hagrees
  obtain ⟨r, -, -, hmem⟩ := hagrees
  exact congrArg Update.stored (List.inj_on_of_nodup_map h.once hu hmem rfl)

/-- Whatever the clock shows each time it is read, and whatever the order of the moves: the tokens
that calls have returned, in the order of their exchanges, increase as long as they are not the
greatest token. Each is the one that the call has stored, and at least what it read off the clock,
and each call that has returned has made one exchange. -/
theorem returned_increase {clock : Clock} (h : (start clock).run? moves = some s) :
    (s.returned.Pairwise fun p q => p.2 ≠ limit → p.2 < q.2) ∧
      (∀ p ∈ s.returned, p.2 = p.1.stored ∧ (∃ time, Move.read p.1.call time ∈ moves) ∧
        ∀ time, Move.read p.1.call time ∈ moves → reading time ≤ p.2) ∧
      (s.updates.map Update.call).Nodup ∧
      ∀ call token, s.stage call = .returned token → (Update.mk call token, token) ∈ s.returned := by
  have hinv := inv_run h
  refine ⟨?_, ?_, hinv.once, ?_⟩
  · have hstored : s.updates.Pairwise fun u v =>
        (∀ token, s.stage u.call = .returned token → u.stored = token) ∧
        (∀ token, s.stage v.call = .returned token → v.stored = token) ∧
          (u.stored ≠ limit → u.stored < v.stored) :=
      hinv.increasing.imp_of_mem fun hu hv hless =>
        ⟨fun _ => hinv.stored_eq hu, fun _ => hinv.stored_eq hv, hless⟩
    refine hstored.filterMap _ ?_
    rintro u v ⟨hu, hv, hless⟩ p hp q hq
    split at hp
    · rename_i token hstage
      split at hq
      · rename_i token' hstage'
        obtain rfl := Option.some.inj hp
        obtain rfl := Option.some.inj hq
        rw [← hu token hstage, ← hv token' hstage']
        exact hless
      · cases hq
    · cases hp
  · rintro ⟨u, token⟩ hp
    obtain ⟨hu, hstage⟩ := mem_returned.1 hp
    have hagrees := hinv.agrees u.call
    rw [hstage] at hagrees
    obtain ⟨r, ⟨hread, hall⟩, hle, -⟩ := hagrees
    refine ⟨(hinv.stored_eq hu hstage).symm, hread, fun time hmem => ?_⟩
    rw [hall time hmem]
    exact hle
  · intro call token hstage
    have hagrees := hinv.agrees call
    rw [hstage] at hagrees
    obtain ⟨r, -, -, hmem⟩ := hagrees
    exact mem_returned.2 ⟨hmem, hstage⟩

end Calls

end ModuleServer.Clock
