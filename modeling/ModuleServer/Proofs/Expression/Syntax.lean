import ModuleServer.Expression.Name
import ModuleServer.Expression.Shape

/-!
# Expressions as trees

The expressions of templates as trees, beside the text that they are written as. Words, numbers,
strings, operators and the white space between tokens carry their own well-formedness, so a tree can
only be wrong in how its tokens meet (`Expr.isProper`).

* `Expr.render` is the text of a tree.
* `Expr.resolve` makes every free name in the place of an operand a member of the context, and
  writes out the free entries of objects that are key and value in one.
* `Expr.isProper` says that no two words touch, that no member is one of a number, that an entry of
  an object holds no comma outside of brackets, and that no string inside a hole has a brace.
-/

namespace ModuleServer.Expression

open Text

/-! ## Tokens -/

/-- White space between two tokens, possibly none. -/
structure Gap where
  /-- The white space. -/
  text : Text
  white : text.all isWhite = true := by decide

/-- No white space. -/
def Gap.none : Gap := ⟨[], rfl⟩

/-- One space. -/
def Gap.space : Gap := ⟨[' '], by decide⟩

/-- A word that is a name. -/
structure Name where
  /-- The word. -/
  text : Text
  valid : isName text = true := by decide

/-- The name of the context. -/
def Name.context : Name := ⟨"_ctx".toList, by decide⟩

/-- A decimal number: digits, digits behind a dot, and an exponent, with digits on one side of the
dot at least. -/
structure Number where
  /-- The digits before the dot. -/
  whole : Text
  /-- The digits behind the dot, if there is one. -/
  fraction : Option Text := Option.none
  /-- The letter of the exponent, its sign if it has one, and its digits. -/
  exponent : Option (Char × Option Char × Text) := Option.none
  digits : (whole ++ fraction.getD []).all Char.isDigit = true := by decide
  someDigit : whole ++ fraction.getD [] ≠ [] := by decide
  scaled : exponent.all (fun (mark, sign, power) =>
    ['e', 'E'].contains mark && sign.all ['+', '-'].contains && !power.isEmpty &&
      power.all Char.isDigit) = true := by decide

/-- The text of the exponent of a number. -/
def Number.exponentText (n : Number) : Text :=
  match n.exponent with
  | Option.none => []
  | some (mark, sign, power) => mark :: (sign.toList ++ power)

/-- The text of a number. -/
def Number.text (n : Number) : Text :=
  n.whole ++ (match n.fraction with
    | Option.none => []
    | some digits => '.' :: digits) ++ n.exponentText

/-- A character as it is written inside of quotes. -/
inductive Glyph where
  /-- A character that stands for itself. -/
  | plain (c : Char)
  /-- A character behind a backslash. -/
  | escaped (c : Char)
deriving DecidableEq, Repr

/-- The text of a character inside of quotes. -/
def Glyph.text : Glyph → Text
  | plain c => [c]
  | escaped c => ['\\', c]

/-- The character of a glyph. -/
def Glyph.char : Glyph → Char
  | plain c => c
  | escaped c => c

/-- Whether a glyph is neither the character `end?` nor a backslash by itself. -/
def Glyph.isInside (closing : Char) : Glyph → Bool
  | plain c => c ≠ closing && c ≠ '\\'
  | escaped _ => true

/-- A string in quotes of either kind. -/
structure Quoted where
  /-- The quote on both sides. -/
  quote : Char
  /-- What stands between the quotes. -/
  glyphs : List Glyph
  isQuote : (quote = '\'' ∨ quote = '"') := by decide
  inside : glyphs.all (Glyph.isInside quote) = true := by decide

/-- The text of a string. -/
def Quoted.text (s : Quoted) : Text :=
  s.quote :: (s.glyphs.flatMap Glyph.text ++ [s.quote])

/-- Whether glyphs neither close a template literal nor open a hole in it. -/
def isTemplateText : List Glyph → Bool
  | [] => true
  | g :: gs => g.isInside '`' && !(g = .plain '$' && gs.head? = some (.plain '{')) &&
      isTemplateText gs

/-- Text of a template literal between its holes. -/
structure Chunk where
  /-- The characters. -/
  glyphs : List Glyph
  valid : isTemplateText glyphs = true := by decide

/-- The text of a chunk. -/
def Chunk.text (c : Chunk) : Text :=
  c.glyphs.flatMap Glyph.text

/-! ## Operators -/

/-- Operators between two operands that are made of marks. -/
def binaryMarks : List Text :=
  ["+", "-", "*", "/", "%", "**", "==", "!=", "===", "!==", "<", ">", "<=", ">=", "&&", "||", "??",
   "&", "|", "^", "<<", ">>", ">>>", "=", "+=", "-=", "*=", "/=", "%=", "**=", "&&=", "||=", "??=",
   "&=", "|=", "^=", "<<=", ">>=", ">>>=", ","].map String.toList

/-- Operators between two operands that are words. -/
def binaryWords : List Text :=
  ["in", "instanceof"].map String.toList

/-- Operators before an operand that are made of marks. -/
def prefixMarks : List Text :=
  ["!", "~", "+", "-", "++", "--"].map String.toList

/-- Operators before an operand that are words. -/
def prefixWords : List Text :=
  ["typeof", "void", "delete", "await", "new"].map String.toList

/-- Operators behind an operand. -/
def postfixMarks : List Text :=
  ["++", "--"].map String.toList

/-- An operator out of a list of marks or a list of words. -/
structure Operator (marks words : List Text) where
  /-- The operator. -/
  text : Text
  known : text ∈ marks ++ words := by decide

/-- Whether an operator is a word. -/
def Operator.isWord {marks words : List Text} (op : Operator marks words) : Bool :=
  words.contains op.text

/-! ## Trees -/

mutual

/-- An expression. -/
inductive Expr where
  /-- A name. -/
  | name (n : Name)
  /-- A number. -/
  | number (n : Number)
  /-- A string. -/
  | string (s : Quoted)
  /-- A template literal: text, then holes each with the text behind it. -/
  | template (text : Chunk) (holes : Holes)
  /-- A member of a value, read as nothing from nothing if `optional`. -/
  | member (base : Expr) (beforeDot : Gap) (optional : Bool) (behindDot : Gap) (n : Name)
  /-- The member that an expression names. -/
  | index (base : Expr) (beforeBracket first : Gap) (key : Expr) (last : Gap)
  /-- A call. -/
  | call (function : Expr) (beforeBracket : Gap) (arguments : Items)
  /-- An expression in brackets. -/
  | group (first : Gap) (inner : Expr) (last : Gap)
  /-- An operator before its operand. -/
  | before (op : Operator prefixMarks prefixWords) (gap : Gap) (operand : Expr)
  /-- An operator behind its operand. -/
  | behind (operand : Expr) (gap : Gap) (op : Operator postfixMarks [])
  /-- An operator between its operands, assignments among them. -/
  | between (left : Expr) (beforeOp : Gap) (op : Operator binaryMarks binaryWords) (behindOp : Gap)
      (right : Expr)
  /-- One of two expressions, as a test says. -/
  | conditional (test : Expr) (beforeMark behindMark : Gap) (yes : Expr)
      (beforeColon behindColon : Gap) (no : Expr)
  /-- An array. -/
  | array (items : Items)
  /-- An object. -/
  | object (entries : Entries)

/-- An item of an array or a call. -/
inductive Item where
  /-- An expression. -/
  | value (e : Expr)
  /-- All that an expression holds. -/
  | spread (e : Expr)

/-- Items with commas between them; a comma behind the last is followed by no item. -/
inductive Items where
  /-- No item. -/
  | none (gap : Gap)
  /-- The last item. -/
  | last (first : Gap) (item : Item) (last : Gap)
  /-- An item and a comma. -/
  | more (first : Gap) (item : Item) (last : Gap) (others : Items)

/-- An entry of an object. -/
inductive Entry where
  /-- A value under a name. -/
  | named (key : Name) (beforeColon behindColon : Gap) (value : Expr)
  /-- A value under a key in quotes. -/
  | quoted (key : Quoted) (beforeColon behindColon : Gap) (value : Expr)
  /-- A name that is key and value in one. -/
  | shorthand (n : Name)
  /-- All entries of another object. -/
  | spread (e : Expr)

/-- Entries with commas between them; a comma behind the last is followed by no entry. -/
inductive Entries where
  /-- No entry. -/
  | none (gap : Gap)
  /-- The last entry. -/
  | last (first : Gap) (entry : Entry) (last : Gap)
  /-- An entry and a comma. -/
  | more (first : Gap) (entry : Entry) (last : Gap) (others : Entries)

/-- Holes of a template literal, each with the text behind it. -/
inductive Holes where
  /-- No hole. -/
  | none
  /-- A hole, the text behind it, and the holes that follow. -/
  | more (first : Gap) (e : Expr) (last : Gap) (text : Chunk) (others : Holes)

end

/-! ## Texts of trees -/

/-- The dots of a spread. -/
def ellipsis : Text := ['.', '.', '.']

/-- What stands between a value and the name of its member. -/
def memberMark (optional : Bool) : Text :=
  if optional then ['?', '.'] else ['.']

mutual

/-- The text of an expression. -/
def Expr.render : Expr → Text
  | .name n => n.text
  | .number n => n.text
  | .string s => s.text
  | .template text holes => '`' :: (text.text ++ holes.render ++ ['`'])
  | .member base beforeDot optional behindDot n =>
    base.render ++ beforeDot.text ++ memberMark optional ++ behindDot.text ++ n.text
  | .index base beforeBracket first key last =>
    base.render ++ beforeBracket.text ++ '[' :: (first.text ++ key.render ++ last.text ++ [']'])
  | .call function beforeBracket arguments =>
    function.render ++ beforeBracket.text ++ '(' :: (arguments.render ++ [')'])
  | .group first inner last => '(' :: (first.text ++ inner.render ++ last.text ++ [')'])
  | .before op gap operand => op.text ++ gap.text ++ operand.render
  | .behind operand gap op => operand.render ++ gap.text ++ op.text
  | .between left beforeOp op behindOp right =>
    left.render ++ beforeOp.text ++ op.text ++ behindOp.text ++ right.render
  | .conditional test beforeMark behindMark yes beforeColon behindColon no =>
    test.render ++ beforeMark.text ++ ['?'] ++ behindMark.text ++ yes.render ++ beforeColon.text ++
      [':'] ++ behindColon.text ++ no.render
  | .array items => '[' :: (items.render ++ [']'])
  | .object entries => '{' :: (entries.render ++ ['}'])

/-- The text of an item. -/
def Item.render : Item → Text
  | .value e => e.render
  | .spread e => ellipsis ++ e.render

/-- The text of items. -/
def Items.render : Items → Text
  | .none gap => gap.text
  | .last first item last => first.text ++ item.render ++ last.text
  | .more first item last others =>
    first.text ++ item.render ++ last.text ++ [','] ++ others.render

/-- The text of an entry. -/
def Entry.render : Entry → Text
  | .named key beforeColon behindColon value =>
    key.text ++ beforeColon.text ++ [':'] ++ behindColon.text ++ value.render
  | .quoted key beforeColon behindColon value =>
    key.text ++ beforeColon.text ++ [':'] ++ behindColon.text ++ value.render
  | .shorthand n => n.text
  | .spread e => ellipsis ++ e.render

/-- The text of entries. -/
def Entries.render : Entries → Text
  | .none gap => gap.text
  | .last first entry last => first.text ++ entry.render ++ last.text
  | .more first entry last others =>
    first.text ++ entry.render ++ last.text ++ [','] ++ others.render

/-- The text of holes. -/
def Holes.render : Holes → Text
  | .none => []
  | .more first e last text others =>
    '$' :: '{' :: (first.text ++ e.render ++ last.text) ++ ['}'] ++ text.text ++ others.render

end

theorem Name.text_ne_nil (n : Name) : n.text ≠ [] := by
  intro h
  have hvalid := n.valid
  simp [h, isName] at hvalid

theorem Number.text_ne_nil (n : Number) : n.text ≠ [] := by
  intro h
  have hsome := n.someDigit
  unfold Number.text at h
  cases hf : n.fraction <;> simp_all

/-- The text of an expression is not empty. -/
theorem Expr.render_ne_nil : ∀ e : Expr, e.render ≠ []
  | .name n => n.text_ne_nil
  | .number n => n.text_ne_nil
  | .string _ => List.cons_ne_nil _ _
  | .template _ _ => List.cons_ne_nil _ _
  | .member _ _ _ _ n => by simp [Expr.render, n.text_ne_nil]
  | .index .. => by simp [Expr.render]
  | .call .. => by simp [Expr.render]
  | .group .. => List.cons_ne_nil _ _
  | .before _ _ operand => by simp [Expr.render, operand.render_ne_nil]
  | .behind operand _ _ => by simp [Expr.render, operand.render_ne_nil]
  | .between _ _ _ _ right => by simp [Expr.render, right.render_ne_nil]
  | .conditional .. => by simp [Expr.render]
  | .array _ => List.cons_ne_nil _ _
  | .object _ => List.cons_ne_nil _ _

/-! ## Free names -/

/-- Whether a name in the place of an operand is one of the context: it is no word of the language,
no allowed global, and not bound. -/
def Name.isFree (locals : List Text) (n : Name) : Bool :=
  !(isKeyword n.text || isAllowedGlobal n.text || locals.contains n.text)

theorem Name.isFree_append (names locals : List Text) (n : Name) :
    n.isFree (names ++ locals) = (n.isFree locals && !names.contains n.text) := by
  cases h : names.contains n.text <;> simp_all [isFree]

/-- A name as a member of the context. -/
def Name.inContext (n : Name) : Expr :=
  .member (.name .context) .none false .none n

mutual

/-- The expression with its free names as members of the context. -/
def Expr.resolve (locals : List Text) : Expr → Expr
  | .name n => if n.isFree locals then n.inContext else .name n
  | .number n => .number n
  | .string s => .string s
  | .template text holes => .template text (holes.resolve locals)
  | .member base beforeDot optional behindDot n =>
    .member (base.resolve locals) beforeDot optional behindDot n
  | .index base beforeBracket first key last =>
    .index (base.resolve locals) beforeBracket first (key.resolve locals) last
  | .call function beforeBracket arguments =>
    .call (function.resolve locals) beforeBracket (arguments.resolve locals)
  | .group first inner last => .group first (inner.resolve locals) last
  | .before op gap operand => .before op gap (operand.resolve locals)
  | .behind operand gap op => .behind (operand.resolve locals) gap op
  | .between left beforeOp op behindOp right =>
    .between (left.resolve locals) beforeOp op behindOp (right.resolve locals)
  | .conditional test beforeMark behindMark yes beforeColon behindColon no =>
    .conditional (test.resolve locals) beforeMark behindMark (yes.resolve locals) beforeColon
      behindColon (no.resolve locals)
  | .array items => .array (items.resolve locals)
  | .object entries => .object (entries.resolve locals)

/-- The item with its free names as members of the context. -/
def Item.resolve (locals : List Text) : Item → Item
  | .value e => .value (e.resolve locals)
  | .spread e => .spread (e.resolve locals)

/-- The items with their free names as members of the context. -/
def Items.resolve (locals : List Text) : Items → Items
  | .none gap => .none gap
  | .last first item last => .last first (item.resolve locals) last
  | .more first item last others => .more first (item.resolve locals) last (others.resolve locals)

/-- The entry with its free names as members of the context. A name that is key and value in one
stays the key. -/
def Entry.resolve (locals : List Text) : Entry → Entry
  | .named key beforeColon behindColon value =>
    .named key beforeColon behindColon (value.resolve locals)
  | .quoted key beforeColon behindColon value =>
    .quoted key beforeColon behindColon (value.resolve locals)
  | .shorthand n => if n.isFree locals then .named n .none .space n.inContext else .shorthand n
  | .spread e => .spread (e.resolve locals)

/-- The entries with their free names as members of the context. -/
def Entries.resolve (locals : List Text) : Entries → Entries
  | .none gap => .none gap
  | .last first entry last => .last first (entry.resolve locals) last
  | .more first entry last others =>
    .more first (entry.resolve locals) last (others.resolve locals)

/-- The holes with their free names as members of the context. -/
def Holes.resolve (locals : List Text) : Holes → Holes
  | .none => .none
  | .more first e last text others =>
    .more first (e.resolve locals) last text (others.resolve locals)

end

/-! ## How tokens meet -/

/-- What the text of an expression ends with. -/
inductive Ending where
  /-- A name. -/
  | word
  /-- A number. -/
  | number
  /-- Anything else. -/
  | mark
deriving DecidableEq, Repr

/-- What the text of an expression ends with. -/
def Expr.ending : Expr → Ending
  | .name _ => .word
  | .number _ => .number
  | .member .. => .word
  | .before _ _ operand => operand.ending
  | .between _ _ _ _ right => right.ending
  | .conditional _ _ _ _ _ _ no => no.ending
  | _ => .mark

/-- Whether an expression has a comma outside of brackets. -/
def Expr.hasComma : Expr → Bool
  | .before _ _ operand => operand.hasComma
  | .behind operand _ _ => operand.hasComma
  | .between left _ op _ right => op.text = [','] || left.hasComma || right.hasComma
  | .conditional test _ _ yes _ _ no => test.hasComma || yes.hasComma || no.hasComma
  | .member base _ _ _ _ => base.hasComma
  | .index base _ _ _ _ => base.hasComma
  | .call function _ _ => function.hasComma
  | _ => false

/-- Whether there is a brace among glyphs. -/
def hasBrace (glyphs : List Glyph) : Bool :=
  glyphs.any fun g => g.char = '{' || g.char = '}'

mutual

/-- Whether no string and no template text in an expression has a brace. -/
def Expr.isBraceFree : Expr → Bool
  | .name _ => true
  | .number _ => true
  | .string s => !hasBrace s.glyphs
  | .template text holes => !hasBrace text.glyphs && holes.isBraceFree
  | .member base _ _ _ _ => base.isBraceFree
  | .index base _ _ key _ => base.isBraceFree && key.isBraceFree
  | .call function _ arguments => function.isBraceFree && arguments.isBraceFree
  | .group _ inner _ => inner.isBraceFree
  | .before _ _ operand => operand.isBraceFree
  | .behind operand _ _ => operand.isBraceFree
  | .between left _ _ _ right => left.isBraceFree && right.isBraceFree
  | .conditional test _ _ yes _ _ no => test.isBraceFree && yes.isBraceFree && no.isBraceFree
  | .array items => items.isBraceFree
  | .object entries => entries.isBraceFree

/-- Whether no string and no template text in an item has a brace. -/
def Item.isBraceFree : Item → Bool
  | .value e => e.isBraceFree
  | .spread e => e.isBraceFree

/-- Whether no string and no template text in items has a brace. -/
def Items.isBraceFree : Items → Bool
  | .none _ => true
  | .last _ item _ => item.isBraceFree
  | .more _ item _ others => item.isBraceFree && others.isBraceFree

/-- Whether no string and no template text in an entry has a brace. -/
def Entry.isBraceFree : Entry → Bool
  | .named _ _ _ value => value.isBraceFree
  | .quoted key _ _ value => !hasBrace key.glyphs && value.isBraceFree
  | .shorthand _ => true
  | .spread e => e.isBraceFree

/-- Whether no string and no template text in entries has a brace. -/
def Entries.isBraceFree : Entries → Bool
  | .none _ => true
  | .last _ entry _ => entry.isBraceFree
  | .more _ entry _ others => entry.isBraceFree && others.isBraceFree

/-- Whether no string and no template text in holes has a brace. -/
def Holes.isBraceFree : Holes → Bool
  | .none => true
  | .more _ e _ text others => e.isBraceFree && !hasBrace text.glyphs && others.isBraceFree

end

/-- Whether white space parts two words, if two words meet. -/
def Gap.parts (gap : Gap) (wordBefore wordBehind : Bool) : Bool :=
  !(wordBefore && gap.text.isEmpty && wordBehind)

/-- Whether the text of an expression starts with a word or a digit. -/
def Expr.startsWithWord (e : Expr) : Bool :=
  headIs isNameChar e.render

mutual

/-- Whether the tokens of an expression meet as they should. -/
def Expr.isProper : Expr → Bool
  | .name _ => true
  | .number _ => true
  | .string _ => true
  | .template _ holes => holes.isProper
  | .member base _ _ _ _ => base.isProper && base.ending ≠ .number
  | .index base _ _ key _ => base.isProper && key.isProper
  | .call function _ arguments => function.isProper && arguments.isProper
  | .group _ inner _ => inner.isProper
  | .before op gap operand => operand.isProper && gap.parts op.isWord operand.startsWithWord
  | .behind operand _ _ => operand.isProper
  | .between left beforeOp op behindOp right =>
    left.isProper && right.isProper && beforeOp.parts (left.ending ≠ .mark) op.isWord &&
      behindOp.parts op.isWord right.startsWithWord
  | .conditional test _ _ yes _ _ no => test.isProper && yes.isProper && no.isProper
  | .array items => items.isProper
  | .object entries => entries.isProper

/-- Whether the tokens of an item meet as they should. -/
def Item.isProper : Item → Bool
  | .value e => e.isProper
  | .spread e => e.isProper

/-- Whether the tokens of items meet as they should. -/
def Items.isProper : Items → Bool
  | .none _ => true
  | .last _ item _ => item.isProper
  | .more _ item _ others => item.isProper && others.isProper

/-- Whether the tokens of an entry meet as they should. -/
def Entry.isProper : Entry → Bool
  | .named _ _ _ value => value.isProper && !value.hasComma
  | .quoted _ _ _ value => value.isProper && !value.hasComma
  | .shorthand _ => true
  | .spread e => e.isProper && !e.hasComma

/-- Whether the tokens of entries meet as they should. -/
def Entries.isProper : Entries → Bool
  | .none _ => true
  | .last _ entry _ => entry.isProper
  | .more _ entry _ others => entry.isProper && others.isProper

/-- Whether the tokens of holes meet as they should, and no text in a hole has a brace. -/
def Holes.isProper : Holes → Bool
  | .none => true
  | .more _ e _ _ others => e.isProper && e.isBraceFree && others.isProper

end

end ModuleServer.Expression
