import ModuleServer.Proofs.Script.StringValue
import ModuleServer.Proofs.Text.Run

/-!
# Literals and keys are read back

A text that is written as a string literal or as a key is what a program finds there, code unit by
code unit, and reading stops right behind it.

* `readLiteral?_escape`: what is written for a character is read as its code units.
* `ofUtf16_units`: the code units of a text are taken for the text.
* `readKey?_key`: a key is read back, whatever names may be made of beyond ASCII.
-/

namespace ModuleServer.Script

open Text

/-! ## Code units of a text -/

/-- The code units of a text. -/
def units (t : Text) : List Nat :=
  t.flatMap fun c => utf16 c.toNat

/-- The code units of a character are taken for the character, whatever follows them. -/
theorem ofUtf16_utf16_append (c : Char) (t : List Nat) :
    ofUtf16 (utf16 c.toNat ++ t) = c :: ofUtf16 t := by
  have hvalid : c.toNat < 0xD800 ∨ 0xDFFF < c.toNat ∧ c.toNat < 0x110000 := c.valid
  rw [utf16]
  split
  · -- no character has the code of a unit that goes with another one
    have hnone : isHigh c.toNat = false ∧ isLow c.toNat = false := by
      simp only [isHigh, isLow, Bool.and_eq_false_iff, decide_eq_false_iff_not]
      omega
    rw [List.singleton_append, ofUtf16_cons hnone.1, unitChar, hnone.1, hnone.2, Bool.or_self,
      if_neg Bool.false_ne_true, Char.ofNat_toNat]
  · rename_i hlarge
    have hhigh : isHigh (0xD800 + (c.toNat - 0x10000) / 0x400) = true := by
      simp only [isHigh, Bool.and_eq_true, decide_eq_true_eq]
      omega
    have hlow : isLow (0xDC00 + (c.toNat - 0x10000) % 0x400) = true := by
      simp only [isLow, Bool.and_eq_true, decide_eq_true_eq]
      omega
    have hcode : 0x10000 + (0xD800 + (c.toNat - 0x10000) / 0x400 - 0xD800) * 0x400 +
        (0xDC00 + (c.toNat - 0x10000) % 0x400 - 0xDC00) = c.toNat := by
      omega
    rw [List.cons_append, List.cons_append, List.nil_append, ofUtf16, hhigh, hlow, Bool.and_self,
      if_pos rfl, hcode, Char.ofNat_toNat]

theorem ofUtf16_units (t : Text) : ofUtf16 (units t) = t := by
  induction t with
  | nil => rfl
  | cons c t ih =>
    have ih : ofUtf16 (t.flatMap _) = t := ih
    rw [units, List.flatMap_cons, ofUtf16_utf16_append, ih]

/-! ## Literals -/

/-- The code units of a string literal in double quotes, and the text behind it. -/
def readQuoted? : Text → Option (List Nat × Text)
  | '"' :: t => readLiteral? t
  | _ => none

/-- What is written for a character is read as its code units. -/
theorem readLiteral?_escape (c : Char) (rest : Text) :
    readLiteral? (escape c ++ rest) =
      (readLiteral? rest).map fun (value, behind) => (utf16 c.toNat ++ value, behind) := by
  unfold escape
  split_ifs with hquote hback hline hreturn htab hseparator hparagraph
  · subst hquote
    exact readLiteral?_of_escape? rfl
  · subst hback
    exact readLiteral?_of_escape? rfl
  · subst hline
    exact readLiteral?_of_escape? rfl
  · subst hreturn
    exact readLiteral?_of_escape? rfl
  · subst htab
    exact readLiteral?_of_escape? rfl
  · subst hseparator
    exact readLiteral?_of_escape? rfl
  · subst hparagraph
    exact readLiteral?_of_escape? rfl
  · -- any other character stands for itself
    rw [List.singleton_append, readLiteral?, if_neg hquote, if_neg hback,
      if_neg (by simp [hline, hreturn])]

theorem readLiteral?_flatMap_escape (t rest : Text) :
    readLiteral? (t.flatMap escape ++ '"' :: rest) = some (units t, rest) := by
  induction t with
  | nil => rw [List.flatMap_nil, List.nil_append, readLiteral?, if_pos rfl]; rfl
  | cons c t ih =>
    rw [List.flatMap_cons, List.append_assoc, readLiteral?_escape, ih]
    rfl

theorem readQuoted?_quote (t rest : Text) : readQuoted? (quote t ++ rest) = some (units t, rest) := by
  rw [quote, List.cons_append, List.append_assoc, List.singleton_append]
  exact readLiteral?_flatMap_escape t rest

theorem isLineEnd_quote (t : Text) : (quote t).any isLineEnd = false := by
  have hescape : ∀ c, (escape c).any isLineEnd = false := by
    intro c
    unfold escape
    split_ifs with hquote hback hline hreturn htab hseparator hparagraph <;>
      simp [isLineEnd, *]
  rw [quote, List.any_cons, List.any_append, List.any_flatMap]
  simp [hescape, isLineEnd]

/-! ## Keys -/

/-- The characters beyond ASCII that names are made of. -/
structure WideLetters where
  /-- Characters that start a name. -/
  starts : Char → Bool
  /-- Characters that go on with a name. -/
  goesOn : Char → Bool

namespace WideLetters

variable (wide : WideLetters)

/-- Characters that start a bare key. -/
def isKeyStart (c : Char) : Bool :=
  if c.toNat < 0x80 then isPlainStart c else wide.starts c

/-- Characters that go on with a bare key. -/
def isKeyChar (c : Char) : Bool :=
  if c.toNat < 0x80 then isPlainChar c else wide.goesOn c

/-- The code units of the key at the start of an entry, and the text behind it. A key is a string in
double quotes or a name; names with escapes are not read. -/
def readKey? : Text → Option (List Nat × Text)
  | [] => none
  | c :: t =>
    if c = '"' then readLiteral? t
    else if wide.isKeyStart c && !headIs (· = '\\') (t.dropWhile wide.isKeyChar) then
      some (units (c :: t.takeWhile wide.isKeyChar), t.dropWhile wide.isKeyChar)
    else none

/-- Beyond ASCII nothing is a plain character. -/
theorem isKeyChar_of_isPlainChar {c : Char} (h : isPlainChar c) :
    c.toNat < 0x80 ∧ wide.isKeyChar c := by
  have hascii : c.toNat < 0x80 := by
    simp only [isPlainChar, Bool.or_eq_true, decide_eq_true_eq] at h
    rcases h with (h | rfl) | rfl
    · exact toNat_lt_of_isAlphanum h
    · decide
    · decide
  rw [isKeyChar, if_pos hascii]
  exact ⟨hascii, h⟩

/-- A key is read back up to its colon. -/
theorem readKey?_key (t rest : Text) :
    wide.readKey? (key t ++ ':' :: rest) = some (units t, ':' :: rest) := by
  rw [key]
  split
  · rename_i hname
    cases t with
    | nil => cases hname
    | cons c t =>
      rw [isPlainName, Bool.and_eq_true] at hname
      obtain ⟨hstart, hchars⟩ := hname
      have hascii := (wide.isKeyChar_of_isPlainChar (isPlainChar_of_isPlainStart hstart)).1
      have hquote : c ≠ '"' := ne_of_class hstart rfl
      have hkey : t.all wide.isKeyChar := List.all_eq_true.2 fun d hd =>
        (wide.isKeyChar_of_isPlainChar (List.all_eq_true.1 hchars d hd)).2
      have hcolon : headIs wide.isKeyChar (':' :: rest) = false := rfl
      rw [List.cons_append, readKey?, if_neg hquote, dropWhile_run hkey hcolon,
        takeWhile_run hkey hcolon, isKeyStart, if_pos hascii, hstart]
      rfl
  · exact readQuoted?_quote t (':' :: rest)

end WideLetters

theorem isLineEnd_key (t : Text) : (key t).any isLineEnd = false := by
  rw [key]
  split
  · rename_i hname
    rw [List.any_eq_false]
    intro c hc hend
    have hplain := List.all_eq_true.1 (all_isPlainChar_of_isPlainName hname) c hc
    simp only [isLineEnd, Bool.or_eq_true, decide_eq_true_eq] at hend
    rcases hend with ((rfl | rfl) | rfl) | rfl <;> exact absurd hplain (by decide)
  · exact isLineEnd_quote t

/-- A reader gets back the text that was written, as a literal or as a key, and stops right behind
it. Neither holds the end of a line. -/
theorem read_quote_key (wide : WideLetters) (t rest : Text) :
    (readQuoted? (quote t ++ rest) = some (units t, rest) ∧
      wide.readKey? (key t ++ ':' :: ' ' :: rest) = some (units t, ':' :: ' ' :: rest)) ∧
    ofUtf16 (units t) = t ∧
    (quote t).any isLineEnd = false ∧ (key t).any isLineEnd = false :=
  ⟨⟨readQuoted?_quote t rest, wide.readKey?_key t (' ' :: rest)⟩, ofUtf16_units t,
    isLineEnd_quote t, isLineEnd_key t⟩

end ModuleServer.Script
