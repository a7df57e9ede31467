import ModuleServer.Text.Basic

/-!
# Freshness tokens

A token is a reading of the clock in milliseconds, moved past the token before it if the clock has
not advanced. Tokens are numbers of 64 bits and stay at the greatest of them once they get there.

* `lt_tick`: a token is greater than the one before it, as long as that is not the greatest.
-/

namespace ModuleServer

/-- The last token given, zero before the first. -/
structure Clock where
  /-- The last token. -/
  last : Nat
deriving DecidableEq, Repr

namespace Clock

/-- The greatest token. -/
def limit : Nat := 0xFFFFFFFFFFFFFFFF

/-- No token has been given. -/
def start : Clock :=
  ⟨0⟩

/-- The next token, for a reading of the clock. -/
def tick (c : Clock) (reading : Nat) : Nat :=
  max (min reading limit) (min (c.last + 1) limit)

/-- The clock behind its next token. -/
def advance (c : Clock) (reading : Nat) : Clock :=
  ⟨c.tick reading⟩

/-- The tokens for readings in turn. -/
def tokens (c : Clock) : List Nat → List Nat
  | [] => []
  | reading :: readings => c.tick reading :: tokens (c.advance reading) readings

theorem lt_tick (c : Clock) (reading : Nat) (h : c.last < limit) : c.last < c.tick reading := by
  unfold tick
  omega

end Clock

end ModuleServer
