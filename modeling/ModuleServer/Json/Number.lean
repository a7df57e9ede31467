import ModuleServer.Text.Basic

/-!
# JSON numbers

A number as it is written, and whether it is within the range of binary floating point with 64
bits. As many leading digits are taken as fit into 64 bits; what they make, rounded to 53 bits, and
the power of ten that scales it, rounded likewise, must not give a product that rounds to infinity.

* `inRange` decides on the digits alone, `natural?` is the value of a plain natural number.
-/

namespace ModuleServer.Json

/-- A number as it is written. -/
structure Number where
  /-- Whether a minus sign is in front. -/
  negative : Bool
  /-- Digits before the point. -/
  whole : List Nat
  /-- Digits behind the point, if there is one. -/
  fraction : Option (List Nat)
  /-- Whether the exponent has a minus sign, and its digits, if there is one. -/
  exponent : Option (Bool × List Nat)
deriving DecidableEq, Repr

namespace Number

/-- The number that digits write. -/
def ofDigits (digits : List Nat) : Nat :=
  digits.foldl (fun n d => n * 10 + d) 0

/-- The value of a number that has neither a sign nor a fraction nor an exponent. -/
def natural? (n : Number) : Option Nat :=
  if n.negative || n.fraction.isSome || n.exponent.isSome then none
  else some (ofDigits n.whole)

/-- The greatest number of 64 bits. -/
def wordLimit : Nat := 0xFFFFFFFFFFFFFFFF

/-- Digits taken so far: the number that they make, the power of ten that scales it, and whether
no more digits are taken. -/
structure Scaled where
  /-- The number that the digits make. -/
  significand : Nat
  /-- The power of ten. -/
  power : Int
  /-- Whether no more digits are taken. -/
  full : Bool
deriving DecidableEq, Repr

/-- One more digit before the point. -/
def Scaled.addWhole (s : Scaled) (d : Nat) : Scaled :=
  if s.full || s.significand * 10 + d > wordLimit then ⟨s.significand, s.power + 1, true⟩
  else { s with significand := s.significand * 10 + d }

/-- One more digit behind the point. -/
def Scaled.addFraction (s : Scaled) (d : Nat) : Scaled :=
  if s.full || s.significand * 10 + d > wordLimit then { s with full := true }
  else ⟨s.significand * 10 + d, s.power - 1, false⟩

/-- The digits that are taken of a number. -/
def scaled (n : Number) : Scaled :=
  let whole := n.whole.foldl Scaled.addWhole ⟨0, 0, false⟩
  -- the limit is looked at anew behind the point
  let all := (n.fraction.getD []).foldl Scaled.addFraction { whole with full := false }
  match n.exponent with
  | none => all
  | some (negative, digits) =>
    let e : Int := ofDigits digits
    { all with power := if negative then all.power - e else all.power + e }

/-- The nearest number with at most 53 significant bits, a tie going to the even one. -/
def round53 (n : Nat) : Nat :=
  if n < Nat.pow 2 53 then n
  else
    let unit := Nat.pow 2 (n.log2 - 52)
    let low := n / unit
    let up := n % unit * 2 > unit || (n % unit * 2 = unit && low % 2 = 1)
    (if up then low + 1 else low) * unit

/-- The least number that rounds to infinity. -/
def overflow : Nat := Nat.pow 2 1024 - Nat.pow 2 970

/-- The greatest power of ten in range. -/
def greatestPower : Nat := 308

/-- Whether a number is in range. -/
def inRange (n : Number) : Bool :=
  let s := n.scaled
  if s.significand = 0 || s.power < 0 then true
  else if s.power > greatestPower then false
  else round53 s.significand * round53 (Nat.pow 10 s.power.toNat) < overflow

end Number

end ModuleServer.Json
