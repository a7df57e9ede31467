import ModuleServer.Text.Property

/-!
# Names in expressions

What a name is made of, the words that are no names, and the global names that an expression may
use without the context.
-/

namespace ModuleServer.Expression

open Text

/-- Characters that start a name: letters of any script, the underscore and the dollar sign. -/
def isNameStart (c : Char) : Bool :=
  isAlphabetic c || c = '_' || c = '$'

/-- Characters of a name: those that start one, and numbers of any script. -/
def isNameChar (c : Char) : Bool :=
  isAlphanumeric c || c = '_' || c = '$'

/-- Words of the language. -/
def keywords : List Text :=
  ["true", "false", "null", "undefined", "this", "typeof", "instanceof", "in", "of", "new",
   "void", "delete", "function", "return", "if", "else", "let", "const", "var", "class",
   "await", "async", "yield", "arguments"].map String.toList

/-- Global names that are not looked up in the context. -/
def allowedGlobals : List Text :=
  ["Infinity", "NaN", "isFinite", "isNaN", "parseFloat", "parseInt", "decodeURI",
   "decodeURIComponent", "encodeURI", "encodeURIComponent", "Math", "Number", "Date", "Array",
   "Object", "Boolean", "String", "RegExp", "Map", "Set", "JSON", "Intl", "BigInt", "console",
   "Error", "Symbol"].map String.toList

/-- Whether a word is one of the language. -/
def isKeyword (name : Text) : Bool :=
  keywords.contains name

/-- Whether a name is a global that is not looked up in the context. -/
def isAllowedGlobal (name : Text) : Bool :=
  allowedGlobals.contains name

theorem isNameChar_of_isNameStart {c : Char} (h : isNameStart c = true) :
    isNameChar c = true := by
  simp only [isNameStart, isNameChar, isAlphanumeric, Bool.or_eq_true, decide_eq_true_eq] at h ⊢
  rcases h with (h | h) | h <;> simp [h]

/-- The first character of a text that is not white space. -/
def firstVisible? (t : Text) : Option Char :=
  (trimStart t).head?

end ModuleServer.Expression
