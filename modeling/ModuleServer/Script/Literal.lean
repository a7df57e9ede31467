import ModuleServer.Text.Basic

/-!
# String literals and keys

How a text is written as a string literal in double quotes, and as the key of an object's entry:
bare if it is a plain name, as a literal otherwise.
-/

namespace ModuleServer.Script

/-- How a character is written inside a string literal. -/
def escape (c : Char) : Text :=
  if c = '"' then ['\\', '"']
  else if c = '\\' then ['\\', '\\']
  else if c = '\n' then ['\\', 'n']
  else if c = '\r' then ['\\', 'r']
  else if c = '\t' then ['\\', 't']
  else if c = '\u2028' then ['\\', 'u', '2', '0', '2', '8']
  else if c = '\u2029' then ['\\', 'u', '2', '0', '2', '9']
  else [c]

/-- A text as a string literal in double quotes. -/
def quote (t : Text) : Text :=
  '"' :: (t.flatMap escape ++ ['"'])

/-- Characters that start a plain name. -/
def isPlainStart (c : Char) : Bool :=
  c.isAlpha || c = '_' || c = '$'

/-- Characters of a plain name. -/
def isPlainChar (c : Char) : Bool :=
  c.isAlphanum || c = '_' || c = '$'

/-- Whether a text is a name of ASCII letters, digits, underscores and dollar signs that does not
start with a digit. -/
def isPlainName : Text → Bool
  | [] => false
  | c :: t => isPlainStart c && t.all isPlainChar

theorem isPlainChar_of_isPlainStart {c : Char} (h : isPlainStart c) : isPlainChar c := by
  simp only [isPlainStart, isPlainChar, Char.isAlphanum, Bool.or_eq_true] at h ⊢
  rcases h with (h | h) | h <;> simp [h]

theorem all_isPlainChar_of_isPlainName {t : Text} (h : isPlainName t) : t.all isPlainChar := by
  cases t with
  | nil => rfl
  | cons c t =>
    rw [isPlainName, Bool.and_eq_true] at h
    rw [List.all_cons, isPlainChar_of_isPlainStart h.1, h.2]
    rfl

/-- A text as the key of an object's entry. -/
def key (t : Text) : Text :=
  if isPlainName t then t else quote t

end ModuleServer.Script
