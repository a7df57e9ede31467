import Mathlib.Tactic.SplitIfs
import ModuleServer.Proofs.Script.Term

/-!
# The value of a string literal

What a program gets from a string literal in double quotes, for any text between the quotes. A string
is a sequence of code units of sixteen bits, and an escape may write any of them; where a text is
needed, two that make a character together are joined, and others of their kind become the
replacement character.

The literals that a render function is written with need few escapes, and `readString?` reads these
alone. Here the rules are those for modules, in full.

* `readLiteral?` is the value of a literal, and `ofUtf16` the text that it is taken for.
* `readLiteral?_append`: text without quotes, backslashes and line ends is its own value.
* `readLiteral?_backslash`: a backslash is read with what its escape takes, which is never nothing
  (`length_escape?_lt`).
-/

namespace ModuleServer.Script

open Text

/-! ## Code units -/

/-- The code units of a code point. -/
def utf16 (n : Nat) : List Nat :=
  if n < 0x10000 then [n]
  else [0xD800 + (n - 0x10000) / 0x400, 0xDC00 + (n - 0x10000) % 0x400]

/-- Whether a code unit is the first of two that make a character. -/
def isHigh (u : Nat) : Bool :=
  0xD800 ≤ u && u < 0xDC00

/-- Whether a code unit is the second of two that make a character. -/
def isLow (u : Nat) : Bool :=
  0xDC00 ≤ u && u < 0xE000

/-- The character of a code unit that stands by itself. -/
def unitChar (u : Nat) : Char :=
  if isHigh u || isLow u then '\uFFFD' else Char.ofNat u

/-- The text of code units. -/
def ofUtf16 : List Nat → Text
  | [] => []
  | [u] => [unitChar u]
  | u :: v :: t =>
    if isHigh u && isLow v then
      Char.ofNat (0x10000 + (u - 0xD800) * 0x400 + (v - 0xDC00)) :: ofUtf16 t
    else unitChar u :: ofUtf16 (v :: t)

/-- One more code unit in front is one more character, or goes with the first of the others. -/
theorem ofUtf16_cons_cases (u : Nat) (t : List Nat) : ofUtf16 (u :: t) = unitChar u :: ofUtf16 t ∨
    ∃ c rest, ofUtf16 (u :: t) = c :: rest ∧ ofUtf16 t = '\uFFFD' :: rest := by
  match t with
  | [] => exact .inl rfl
  | v :: t =>
    rw [ofUtf16]
    split
    · rename_i hpair
      rw [Bool.and_eq_true] at hpair
      refine .inr ⟨_, _, rfl, ?_⟩
      have hv : unitChar v = '\uFFFD' := by rw [unitChar, hpair.2, Bool.or_true, if_pos rfl]
      -- a second unit is no first one
      have hnot : isHigh v = false := by
        have hlow := hpair.2
        simp only [isLow, isHigh, Bool.and_eq_true, decide_eq_true_eq, Bool.and_eq_false_iff,
          decide_eq_false_iff_not] at hlow ⊢
        omega
      match t with
      | [] => exact congrArg (fun c => [c]) hv
      | w :: t => rw [ofUtf16, hnot, Bool.false_and, if_neg Bool.false_ne_true, hv]
    · exact .inl rfl

theorem unitChar_toNat {c : Char} (hc : c.toNat < 0x80) : unitChar c.toNat = c := by
  have hhigh : isHigh c.toNat = false := by
    rw [isHigh, Bool.and_eq_false_iff]
    exact .inl (decide_eq_false (by omega))
  have hlow : isLow c.toNat = false := by
    rw [isLow, Bool.and_eq_false_iff]
    exact .inl (decide_eq_false (by omega))
  rw [unitChar, hhigh, hlow]
  exact Char.ofNat_toNat c

theorem utf16_toNat {c : Char} (hc : c.toNat < 0x80) : utf16 c.toNat = [c.toNat] :=
  if_pos (by omega)

/-- A code unit that is no first of two stands by itself. -/
theorem ofUtf16_cons {u : Nat} (h : isHigh u = false) (t : List Nat) :
    ofUtf16 (u :: t) = unitChar u :: ofUtf16 t := by
  match t with
  | [] => rfl
  | v :: t => rw [ofUtf16, h, Bool.false_and, if_neg Bool.false_ne_true]

/-- A character of ASCII goes with no code unit, neither before nor behind it. -/
theorem ofUtf16_append_cons {c : Char} (hc : c.toNat < 0x80) (u t : List Nat) :
    ofUtf16 (u ++ c.toNat :: t) = ofUtf16 u ++ c :: ofUtf16 t := by
  have hnone : isHigh c.toNat = false ∧ isLow c.toNat = false := by
    simp only [isHigh, isLow, Bool.and_eq_false_iff, decide_eq_false_iff_not]
    omega
  have hcons : ofUtf16 (c.toNat :: t) = c :: ofUtf16 t := by
    rw [ofUtf16_cons hnone.1, unitChar_toNat hc]
  fun_induction ofUtf16 u with
  | case1 => exact hcons
  | case2 v =>
    rw [List.cons_append, List.nil_append, ofUtf16, hnone.2, Bool.and_false,
      if_neg Bool.false_ne_true, hcons]
    rfl
  | case3 v w u hpair ih =>
    rw [List.cons_append, List.cons_append, ofUtf16, if_pos hpair, ih]
    rfl
  | case4 v w u hpair ih =>
    rw [List.cons_append, List.cons_append, ofUtf16, if_neg hpair, ← List.cons_append, ih]
    rfl

/-- Text of ASCII is its own code units. -/
theorem ofUtf16_ascii_append {w : Text} (hw : ∀ c ∈ w, c.toNat < 0x80) (t : List Nat) :
    ofUtf16 (w.map Char.toNat ++ t) = w ++ ofUtf16 t := by
  induction w with
  | nil => rfl
  | cons c w ih =>
    obtain ⟨hc, hw⟩ := List.forall_mem_cons.1 hw
    have hcons := ofUtf16_append_cons hc [] (w.map Char.toNat ++ t)
    rw [List.map_cons, List.cons_append, ← List.nil_append (_ :: _), hcons, ih hw]
    rfl

/-! ## Escapes -/

/-- The code unit that a number of digits write. -/
def hexEscape? (count : Nat) (t : Text) : Option (List Nat × Text) :=
  if (t.take count).length = count then
    (Template.Reference.digits? 16 0 (t.take count)).map fun n => ([n], t.drop count)
  else none

/-- The code units of the code point that is written in braces. The opening one has been read. -/
def codePoint? (t : Text) : Option (List Nat × Text) :=
  (cut? ['\x7d'] t).bind fun (digits, rest) =>
    if digits.isEmpty then none
    else (Template.Reference.digits? 16 0 digits).bind fun n =>
      if n ≤ 0x10FFFF then some (utf16 n, rest) else none

/-- The code units that an escape stands for, and the text behind it. The backslash has been read.
Modules have no octal escapes, and a line that ends here goes on. -/
def escape? : Text → Option (List Nat × Text)
  | [] => none
  | c :: t =>
    if c = 'x' then hexEscape? 2 t
    else if c = 'u' then
      if t.head? = some '\x7b' then codePoint? t.tail else hexEscape? 4 t
    else if c = '0' then if headIs Char.isDigit t then none else some ([0], t)
    else if c.isDigit then none
    else if c = '\r' then some ([], if t.head? = some '\n' then t.tail else t)
    else if isLineEnd c then some ([], t)
    else some (utf16 ((letterEscapes.lookup c).getD c).toNat, t)

theorem hexEscape?_eq_some {count : Nat} {t rest : Text} {units : List Nat}
    (h : hexEscape? count t = some (units, rest)) : ∃ w n, t = w ++ rest ∧ w.length = count ∧
      Template.Reference.digits? 16 0 w = some n ∧ units = [n] := by
  unfold hexEscape? at h
  split at h
  · rename_i hlength
    obtain ⟨n, hn, heq⟩ := Option.map_eq_some_iff.1 h
    obtain ⟨rfl, rfl⟩ := Prod.mk.inj heq
    exact ⟨t.take count, n, (List.take_append_drop count t).symm, hlength, hn, rfl⟩
  · cases h

theorem length_escape?_lt {t rest : Text} {units : List Nat} (h : escape? t = some (units, rest)) :
    rest.length < t.length := by
  have hhex : ∀ {count t}, hexEscape? count t = some (units, rest) → rest.length ≤ t.length := by
    intro count t h
    obtain ⟨w, n, rfl, -⟩ := hexEscape?_eq_some h
    simp
  cases t with
  | nil => cases h
  | cons c t =>
    rw [escape?] at h
    rw [List.length_cons, Nat.lt_succ_iff]
    split_ifs at h
    · exact hhex h
    · rw [codePoint?] at h
      obtain ⟨⟨digits, rest'⟩, hcut, h⟩ := Option.bind_eq_some_iff.1 h
      have hlength := length_of_cut? hcut
      have htail : t.tail.length ≤ t.length := by simp
      dsimp only at h
      split at h
      · cases h
      · obtain ⟨n, -, h⟩ := Option.bind_eq_some_iff.1 h
        split at h
        · cases h
          omega
        · cases h
    · exact hhex h
    · cases h
      exact Nat.le_refl _
    · cases h
      simp
    · cases h
      exact Nat.le_refl _
    · cases h
      exact Nat.le_refl _
    · cases h
      exact Nat.le_refl _

/-! ## Literals -/

/-- The code units of the string literal whose opening quote has just been read, and the text behind
its closing quote. -/
def readLiteral? (t : Text) : Option (List Nat × Text) :=
  match t with
  | [] => none
  | c :: r =>
    if c = '"' then some ([], r)
    else if c = '\\' then
      match _h : escape? r with
      | none => none
      | some (units, rest) =>
        (readLiteral? rest).map fun (value, behind) => (units ++ value, behind)
    else if c = '\n' || c = '\r' then none
    else (readLiteral? r).map fun (value, behind) => (utf16 c.toNat ++ value, behind)
termination_by t.length
decreasing_by
  · exact Nat.lt_succ_of_lt (length_escape?_lt _h)
  · exact Nat.lt_succ_self _

/-- Characters that stand for themselves in a literal. -/
def isOwnValue (c : Char) : Bool :=
  c.toNat < 0x80 && c ≠ '"' && c ≠ '\\' && c ≠ '\n' && c ≠ '\r'

theorem toNat_lt_of_isOwnValue {c : Char} (h : isOwnValue c) : c.toNat < 0x80 := by
  simp only [isOwnValue, Bool.and_eq_true, decide_eq_true_eq] at h
  exact h.1.1.1.1

theorem readLiteral?_append {w : Text} (hw : ∀ c ∈ w, isOwnValue c) (t : Text) :
    readLiteral? (w ++ t) =
      (readLiteral? t).map fun (value, behind) => (w.map Char.toNat ++ value, behind) := by
  induction w with
  | nil =>
    rw [List.nil_append]
    cases readLiteral? t <;> rfl
  | cons c w ih =>
    obtain ⟨hc, hw⟩ := List.forall_mem_cons.1 hw
    simp only [isOwnValue, Bool.and_eq_true, decide_eq_true_eq, ne_eq] at hc
    obtain ⟨⟨⟨⟨hascii, hquote⟩, hbackslash⟩, hline⟩, hreturn⟩ := hc
    rw [List.cons_append, readLiteral?, if_neg hquote, if_neg hbackslash, if_neg (by simp [*]),
      ih hw, utf16_toNat hascii]
    cases readLiteral? t <;> rfl

/-- An escape is read as what it stands for. -/
theorem readLiteral?_of_escape? {t rest : Text} {units : List Nat}
    (h : escape? t = some (units, rest)) : readLiteral? ('\\' :: t) =
      (readLiteral? rest).map fun (value, behind) => (units ++ value, behind) := by
  rw [readLiteral?, if_neg (by decide), if_pos rfl]
  split
  · rename_i hnone
    cases h.symm.trans hnone
  · rename_i hsome
    cases h.symm.trans hsome
    rfl

/-- A backslash is read with its escape. -/
theorem readLiteral?_backslash {t behind : Text} {value : List Nat}
    (h : readLiteral? ('\\' :: t) = some (value, behind)) : ∃ units rest value',
      escape? t = some (units, rest) ∧ readLiteral? rest = some (value', behind) ∧
        value = units ++ value' := by
  rw [readLiteral?, if_neg (by decide), if_pos rfl] at h
  split at h
  · cases h
  · rename_i units rest hescape
    obtain ⟨⟨value', behind'⟩, hrest, heq⟩ := Option.map_eq_some_iff.1 h
    cases heq
    exact ⟨units, rest, value', hescape, hrest, rfl⟩

/-- A character of two code units, the first unit of one, and a line that goes on. -/
example : (readLiteral? "\\u\x7b1F600\x7d\\uD83D\\\n\\q\"b".toList).map
    (fun (value, behind) => (ofUtf16 value, behind)) = some (['😀', '\uFFFD', 'q'], ['b']) := by
  decide +kernel

end ModuleServer.Script
