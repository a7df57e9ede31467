import ModuleServer.Text.Basic

/-!
# Character references

`&name;` and `&#code;` stand for one character each. Six names are known; a code is decimal, or
hexadecimal after an `x`, and may have a plus sign. The semicolon has to come within nine bytes of
text. Whatever is no reference is text as it stands.

* `decode_eq_self`: text without an ampersand is left alone.
-/

namespace ModuleServer.Template.Reference

open Text

/-- The character of a known name. -/
def named? (name : Text) : Option Char :=
  if name = "amp".toList then some '&'
  else if name = "lt".toList then some '<'
  else if name = "gt".toList then some '>'
  else if name = "quot".toList then some '"'
  else if name = "apos".toList then some '\''
  else if name = "nbsp".toList then some '\u00a0'
  else none

/-- The value of a digit, letters of either case going on from nine. -/
def digit? (base : Nat) (c : Char) : Option Nat :=
  let value :=
    if c.isDigit then c.toNat - '0'.toNat
    else if c.isAlpha then c.toLower.toNat - 'a'.toNat + 10
    else base
  if value < base then some value else none

/-- The number that all of the digits write, `acc` being written by the digits before. -/
def digits? (base acc : Nat) : Text → Option Nat
  | [] => some acc
  | c :: t => (digit? base c).bind fun d => digits? base (acc * base + d) t

/-- A number of 32 bits: digits, at least one, with or without a plus sign. -/
def number? (base : Nat) (t : Text) : Option Nat :=
  let body := match t with
    | '+' :: r => r
    | _ => t
  if body.isEmpty then none
  else (digits? base 0 body).bind fun n => if n < UInt32.size then some n else none

/-- The character of a code point. -/
def ofCode? (n : Nat) : Option Char :=
  if n.isValidChar then some (Char.ofNat n) else none

/-- The character that the text between `&` and `;` stands for. -/
def character? (body : Text) : Option Char :=
  match body with
  | '#' :: 'x' :: hex => (number? 16 hex).bind ofCode?
  | '#' :: 'X' :: hex => (number? 16 hex).bind ofCode?
  | '#' :: code => (number? 10 code).bind ofCode?
  | name => named? name

/-- The character of the reference whose `&` has just been read, and the text behind its
semicolon. -/
def read? (t : Text) : Option (Char × Text) :=
  match cut? [';'] t with
  | some (body, rest) =>
    if byteSize body ≤ 9 then (character? body).map fun c => (c, rest) else none
  | none => none

theorem length_read?_lt {t rest : Text} {c : Char} (h : read? t = some (c, rest)) :
    rest.length < t.length := by
  unfold read? at h
  split at h
  · rename_i body behind hc
    split at h
    · obtain ⟨d, -, he⟩ := Option.map_eq_some_iff.1 h
      obtain ⟨-, rfl⟩ := Prod.mk.inj he
      have := length_of_cut? hc
      simp only [List.length_cons, List.length_nil] at this
      omega
    · simp at h
  · simp at h

/-- The text with its references replaced by what they stand for. -/
def decode (t : Text) : Text :=
  match t with
  | [] => []
  | c :: r =>
    if c = '&' then
      match _h : read? r with
      | some (d, rest) => d :: decode rest
      | none => '&' :: decode r
    else c :: decode r
termination_by t.length
decreasing_by
  · have := length_read?_lt _h
    simp only [List.length_cons]
    omega
  · simp
  · simp

theorem decode_nil : decode [] = [] := by
  rw [decode]

theorem decode_cons_of_ne {c : Char} (h : c ≠ '&') (r : Text) :
    decode (c :: r) = c :: decode r := by
  rw [decode, if_neg h]

theorem decode_eq_self {t : Text} (h : '&' ∉ t) : decode t = t := by
  induction t with
  | nil => exact decode_nil
  | cons c r ih =>
    have hc : c ≠ '&' := fun e => h (by simp [e])
    rw [decode_cons_of_ne hc, ih fun hr => h (List.mem_cons_of_mem _ hr)]

end ModuleServer.Template.Reference
