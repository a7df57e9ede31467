import ModuleServer.Text.Basic

/-!
# Outcomes

A computation on user text ends with a value, with a failure that has a text of its own, or
because it was to cut a text inside a character. The last is no failure of the input's grammar:
nothing can be said about it, so it is kept apart from every failure and passes through all
layers unchanged.
-/

namespace ModuleServer

/-- Why a computation ends without a value. -/
inductive Stop (ε : Type) where
  /-- A failure with a cause. -/
  | failed (error : ε)
  /-- A text was to be cut inside a character. -/
  | splitCharacter
deriving DecidableEq, Repr

/-- A value, or why there is none. -/
abbrev Outcome (ε α : Type) := Except (Stop ε) α

namespace Outcome

/-- Ends with a failure. -/
def fail {ε α : Type} (error : ε) : Outcome ε α :=
  .error (.failed error)

/-- The value of a cut, which is missing when the cut falls inside a character. -/
def ofCut {ε α : Type} : Option α → Outcome ε α
  | some a => .ok a
  | none => .error .splitCharacter

/-- The outcome with failures restated. -/
def mapFailure {ε δ α : Type} (f : ε → δ) : Outcome ε α → Outcome δ α
  | .ok a => .ok a
  | .error (.failed e) => .error (.failed (f e))
  | .error .splitCharacter => .error .splitCharacter

/-- A plain result as an outcome. -/
def ofExcept {ε α : Type} : Except ε α → Outcome ε α
  | .ok a => .ok a
  | .error e => .error (.failed e)

end Outcome

end ModuleServer
