import ModuleServer.Text.Basic

/-!
# UTF-8

Bytes and text. Reading bytes gives one unit for every well-formed character and one empty unit
for every longest run of bytes that could have started a character but did not; strict reading
refuses such a run, lenient reading puts the replacement character in its place.

* `length_follow_le`: continuing a character never gives bytes back.
-/

namespace ModuleServer

/-- A sequence of bytes. -/
abbrev Bytes := List UInt8

namespace Utf8

/-! ## Writing -/

/-- The one to four bytes of a code point. -/
def encodePoint (n : Nat) : List Nat :=
  if n < 0x80 then [n]
  else if n < 0x800 then [0xC0 + n / 64, 0x80 + n % 64]
  else if n < 0x10000 then [0xE0 + n / 4096, 0x80 + n / 64 % 64, 0x80 + n % 64]
  else [0xF0 + n / 262144, 0x80 + n / 4096 % 64, 0x80 + n / 64 % 64, 0x80 + n % 64]

/-- The bytes of a character. -/
def encodeChar (c : Char) : Bytes :=
  (encodePoint c.toNat).map UInt8.ofNat

/-- The bytes of a text. -/
def encode (t : Text) : Bytes :=
  t.flatMap encodeChar

/-! ## Reading -/

/-- What a first byte announces: how many bytes follow, between which bounds the next of them
lies, and the bits it brings itself. -/
structure Lead where
  /-- Number of bytes that follow. -/
  more : Nat
  /-- Least value of the next byte. -/
  low : Nat
  /-- Greatest value of the next byte. -/
  high : Nat
  /-- Bits of the first byte. -/
  bits : Nat
deriving DecidableEq, Repr

/-- What a byte announces as the first of a character, if it can be one. Overlong forms,
surrogates and values past the last plane are kept out by the bounds on the second byte. -/
def lead? (b : Nat) : Option Lead :=
  if b < 0x80 then some ⟨0, 0x80, 0xBF, b⟩
  else if b < 0xC2 then none
  else if b < 0xE0 then some ⟨1, 0x80, 0xBF, b - 0xC0⟩
  else if b = 0xE0 then some ⟨2, 0xA0, 0xBF, 0⟩
  else if b = 0xED then some ⟨2, 0x80, 0x9F, 0xD⟩
  else if b < 0xF0 then some ⟨2, 0x80, 0xBF, b - 0xE0⟩
  else if b = 0xF0 then some ⟨3, 0x90, 0xBF, 0⟩
  else if b < 0xF4 then some ⟨3, 0x80, 0xBF, b - 0xF0⟩
  else if b = 0xF4 then some ⟨3, 0x80, 0x8F, 4⟩
  else none

/-- The code point that the bytes complete, and the bytes behind it. A byte out of bounds is left
where it is. -/
def follow : (more low high bits : Nat) → Bytes → Option Nat × Bytes
  | 0, _, _, bits, t => (some bits, t)
  | _ + 1, _, _, _, [] => (none, [])
  | more + 1, low, high, bits, b :: t =>
    if low ≤ b.toNat ∧ b.toNat ≤ high then
      follow more 0x80 0xBF (bits * 64 + b.toNat % 64) t
    else (none, b :: t)

theorem length_follow_le (more low high bits : Nat) (t : Bytes) :
    (follow more low high bits t).2.length ≤ t.length := by
  induction t generalizing more low high bits with
  | nil => cases more <;> simp [follow]
  | cons b t ih =>
    cases more with
    | zero => simp [follow]
    | succ more =>
      simp only [follow]
      split
      · exact Nat.le_succ_of_le (ih ..)
      · simp

/-- The units of a sequence of bytes: its characters, and nothing for each ill-formed run. -/
def units : Bytes → List (Option Char)
  | [] => []
  | b :: t =>
    match lead? b.toNat with
    | none => none :: units t
    | some l =>
      (follow l.more l.low l.high l.bits t).1.map Char.ofNat ::
        units (follow l.more l.low l.high l.bits t).2
termination_by bytes => bytes.length
decreasing_by
  · simp
  · exact Nat.lt_succ_of_le (length_follow_le ..)

/-- The text of well-formed bytes. -/
def decode? (bytes : Bytes) : Option Text :=
  (units bytes).mapM id

/-- The text of any bytes, with U+FFFD for each ill-formed run. -/
def decodeLossy (bytes : Bytes) : Text :=
  (units bytes).map (·.getD '\uFFFD')

end Utf8

end ModuleServer
