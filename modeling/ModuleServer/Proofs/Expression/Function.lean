import ModuleServer.Proofs.Expression.Syntax

/-!
# Expressions with functions as trees

Expressions in which functions may be written: arrows, with one parameter or with parameters in
brackets, and functions with the word for one. The other forms and their tokens are those of
expressions without functions.

* `Code.render` is the text of a tree.
* `Code.isPath` and `Code.isFunction` are the two shapes that are a listener as they stand, and
  `Code.callsAtOnce` says whether a call is evaluated along with the expression.
* `Code.isProper` says that no two words touch, that no member is one of a number, and that nothing
  but a comma goes on behind the body of an arrow.
-/

namespace ModuleServer.Expression

open Text

/-! ## Parameters -/

/-- Names with commas between them; a comma behind the last is followed by no name. -/
inductive Names where
  /-- No name. -/
  | none (gap : Gap)
  /-- The last name. -/
  | last (first : Gap) (n : Name) (behind : Gap)
  /-- A name and a comma. -/
  | more (first : Gap) (n : Name) (behind : Gap) (others : Names)

namespace Names

/-- The text of names. -/
def text : Names → Text
  | none gap => gap.text
  | last first n behind => first.text ++ n.text ++ behind.text
  | more first n behind others => first.text ++ n.text ++ behind.text ++ ',' :: others.text

/-- The names, in order. -/
def toList : Names → List Name
  | none _ => []
  | last _ n _ => [n]
  | more _ n _ others => n :: others.toList

end Names

/-- The parameters of an arrow. -/
inductive Parameters where
  /-- One parameter. -/
  | lone (n : Name)
  /-- Parameters in brackets. -/
  | listed (names : Names)

namespace Parameters

/-- The text of parameters. -/
def text : Parameters → Text
  | lone n => n.text
  | listed names => '(' :: (names.text ++ [')'])

/-- The names that are bound. -/
def toList : Parameters → List Name
  | lone n => [n]
  | listed names => names.toList

end Parameters

/-! ## Trees -/

/-- What stands before an item or an entry. -/
inductive Label where
  /-- Nothing. -/
  | none
  /-- The dots of a spread. -/
  | spread
  /-- A key. -/
  | key (n : Name) (beforeColon behindColon : Gap)
  /-- A key in quotes. -/
  | quoted (s : Quoted) (beforeColon behindColon : Gap)

/-- The text of a label. -/
def Label.text : Label → Text
  | none => []
  | spread => ellipsis
  | key n beforeColon behindColon => n.text ++ beforeColon.text ++ ':' :: behindColon.text
  | quoted s beforeColon behindColon => s.text ++ beforeColon.text ++ ':' :: behindColon.text

mutual

/-- An expression, maybe with functions. -/
inductive Code where
  /-- A name, or a word that stands for a value. -/
  | name (n : Name)
  /-- A number. -/
  | number (n : Number)
  /-- A string. -/
  | string (s : Quoted)
  /-- A template literal: text, then holes each with the text behind it. -/
  | template (text : Chunk) (holes : CodeHoles)
  /-- A member of a value, read as nothing from nothing if `optional`. -/
  | member (base : Code) (beforeDot : Gap) (optional : Bool) (behindDot : Gap) (n : Name)
  /-- The member that an expression names. -/
  | index (base : Code) (beforeBracket first : Gap) (key : Code) (last : Gap)
  /-- A call. -/
  | call (callee : Code) (beforeBracket : Gap) (arguments : Codes)
  /-- An expression in brackets. -/
  | group (first : Gap) (inner : Code) (last : Gap)
  /-- An operator before its operand. -/
  | before (op : Operator prefixMarks prefixWords) (gap : Gap) (operand : Code)
  /-- An operator behind its operand. -/
  | behind (operand : Code) (gap : Gap) (op : Operator postfixMarks [])
  /-- An operator between its operands, assignments among them. -/
  | between (left : Code) (beforeOp : Gap) (op : Operator binaryMarks binaryWords) (behindOp : Gap)
      (right : Code)
  /-- One of two expressions, as a test says. -/
  | conditional (test : Code) (beforeMark behindMark : Gap) (yes : Code)
      (beforeColon behindColon : Gap) (no : Code)
  /-- An array. -/
  | array (items : Codes)
  /-- An object. -/
  | object (entries : Codes)
  /-- An arrow, with the white space behind the word `async` if it starts with it. -/
  | arrow (async : Option Gap) (parameters : Parameters) (beforeArrow behindArrow : Gap)
      (body : Code)
  /-- A function with the word for one, whose body is an expression. -/
  | function (beforeBracket : Gap) (parameters : Names) (beforeBrace first : Gap) (body : Code)
      (last : Gap)

/-- Items of an array or a call, or entries of an object, with commas between them; a comma behind
the last is followed by none. -/
inductive Codes where
  /-- No item. -/
  | none (gap : Gap)
  /-- The last item. -/
  | last (first : Gap) (label : Label) (e : Code) (last : Gap)
  /-- An item and a comma. -/
  | more (first : Gap) (label : Label) (e : Code) (last : Gap) (others : Codes)

/-- Holes of a template literal, each with the text behind it. -/
inductive CodeHoles where
  /-- No hole. -/
  | none
  /-- A hole, the text behind it, and the holes that follow. -/
  | more (first : Gap) (e : Code) (last : Gap) (text : Chunk) (others : CodeHoles)

end

/-! ## Texts of trees -/

/-- The word that makes a function asynchronous, with the white space behind it. -/
def asyncText : Option Gap → Text
  | none => []
  | some gap => "async".toList ++ gap.text

/-- The mark of an arrow. -/
def arrowMark : Text := ['=', '>']

/-- The word for a function. -/
def functionWord : Text := "function".toList

mutual

/-- The text of an expression. -/
def Code.render : Code → Text
  | .name n => n.text
  | .number n => n.text
  | .string s => s.text
  | .template text holes => '`' :: (text.text ++ holes.render ++ ['`'])
  | .member base beforeDot optional behindDot n =>
    base.render ++ (beforeDot.text ++ (memberMark optional ++ behindDot.text ++ n.text))
  | .index base beforeBracket first key last =>
    base.render ++ (beforeBracket.text ++ '[' :: (first.text ++ key.render ++ last.text ++ [']']))
  | .call callee beforeBracket arguments =>
    callee.render ++ (beforeBracket.text ++ '(' :: (arguments.render ++ [')']))
  | .group first inner last => '(' :: (first.text ++ inner.render ++ last.text ++ [')'])
  | .before op gap operand => op.text ++ (gap.text ++ operand.render)
  | .behind operand gap op => operand.render ++ (gap.text ++ op.text)
  | .between left beforeOp op behindOp right =>
    left.render ++ (beforeOp.text ++ (op.text ++ (behindOp.text ++ right.render)))
  | .conditional test beforeMark behindMark yes beforeColon behindColon no =>
    test.render ++ (beforeMark.text ++ '?' :: (behindMark.text ++ yes.render ++ beforeColon.text ++
      ':' :: (behindColon.text ++ no.render)))
  | .array items => '[' :: (items.render ++ [']'])
  | .object entries => '{' :: (entries.render ++ ['}'])
  | .arrow async parameters beforeArrow behindArrow body =>
    asyncText async ++ (parameters.text ++ (beforeArrow.text ++ (arrowMark ++
      (behindArrow.text ++ body.render))))
  | .function beforeBracket parameters beforeBrace first body last =>
    functionWord ++ (beforeBracket.text ++ '(' :: (parameters.text ++ ')' :: (beforeBrace.text ++
      '{' :: (first.text ++ body.render ++ last.text ++ ['}']))))

/-- The text of items. -/
def Codes.render : Codes → Text
  | .none gap => gap.text
  | .last first label e last => first.text ++ label.text ++ e.render ++ last.text
  | .more first label e last others =>
    first.text ++ label.text ++ e.render ++ last.text ++ ',' :: others.render

/-- The text of holes. -/
def CodeHoles.render : CodeHoles → Text
  | .none => []
  | .more first e last text others =>
    '$' :: '{' :: (first.text ++ e.render ++ last.text ++ '}' :: (text.text ++ others.render))

end

/-! ## Shapes -/

/-- Words of the language that are no identifiers. -/
def reservedWords : List Text :=
  ["await", "break", "case", "catch", "class", "const", "continue", "debugger", "default", "delete",
   "do", "else", "enum", "export", "extends", "false", "finally", "for", "function", "if", "import",
   "in", "instanceof", "new", "null", "return", "super", "switch", "this", "throw", "true", "try",
   "typeof", "var", "void", "while", "with", "yield"].map String.toList

/-- Whether a name is an identifier. -/
def Name.isIdentifier (n : Name) : Bool :=
  !reservedWords.contains n.text

/-- Whether an expression is an identifier, or a member of a member of one, and so on. -/
def Code.isPath : Code → Bool
  | .name n => n.isIdentifier
  | .member base _ optional _ _ => !optional && base.isPath
  | _ => false

/-- Whether an expression is a function. -/
def Code.isFunction : Code → Bool
  | .arrow .. => true
  | .function .. => true
  | _ => false

mutual

/-- Whether a call is evaluated along with an expression: it stands in no function. -/
def Code.callsAtOnce : Code → Bool
  | .name _ => false
  | .number _ => false
  | .string _ => false
  | .template _ holes => holes.callsAtOnce
  | .member base _ _ _ _ => base.callsAtOnce
  | .index base _ _ key _ => base.callsAtOnce || key.callsAtOnce
  | .call .. => true
  | .group _ inner _ => inner.callsAtOnce
  | .before _ _ operand => operand.callsAtOnce
  | .behind operand _ _ => operand.callsAtOnce
  | .between left _ _ _ right => left.callsAtOnce || right.callsAtOnce
  | .conditional test _ _ yes _ _ no => test.callsAtOnce || yes.callsAtOnce || no.callsAtOnce
  | .array items => items.callsAtOnce
  | .object entries => entries.callsAtOnce
  | .arrow .. => false
  | .function .. => false

/-- Whether a call is evaluated along with items. -/
def Codes.callsAtOnce : Codes → Bool
  | .none _ => false
  | .last _ _ e _ => e.callsAtOnce
  | .more _ _ e _ others => e.callsAtOnce || others.callsAtOnce

/-- Whether a call is evaluated along with holes. -/
def CodeHoles.callsAtOnce : CodeHoles → Bool
  | .none => false
  | .more _ e _ _ others => e.callsAtOnce || others.callsAtOnce

end

/-- Paths and functions call nothing at once. -/
theorem Code.not_callsAtOnce_of_isPath : ∀ e : Code, e.isPath → e.callsAtOnce = false
  | .name _, _ => rfl
  | .member base _ _ _ _, h => by
    simp only [isPath, Bool.and_eq_true] at h
    exact base.not_callsAtOnce_of_isPath h.2

theorem Code.not_callsAtOnce_of_isFunction {e : Code} (h : e.isFunction) :
    e.callsAtOnce = false := by
  cases e with
  | arrow async parameters beforeArrow behindArrow body => rfl
  | function beforeBracket parameters beforeBrace first body last => rfl
  | _ => cases h

/-! ## How tokens meet -/

/-- What the text of an expression ends with. -/
def Code.ending : Code → Ending
  | .name _ => .word
  | .number _ => .number
  | .member .. => .word
  | .before _ _ operand => operand.ending
  | .between _ _ _ _ right => right.ending
  | .conditional _ _ _ _ _ _ no => no.ending
  | .arrow _ _ _ _ body => body.ending
  | _ => .mark

/-- Whether the body of an arrow goes on with whatever stands behind an expression. -/
def Code.endsWithArrow : Code → Bool
  | .before _ _ operand => operand.endsWithArrow
  | .between _ _ _ _ right => right.endsWithArrow
  | .conditional _ _ _ _ _ _ no => no.endsWithArrow
  | .arrow .. => true
  | _ => false

/-- Whether an expression has a comma outside of brackets and functions. -/
def Code.hasComma : Code → Bool
  | .member base _ _ _ _ => base.hasComma
  | .index base _ _ _ _ => base.hasComma
  | .call callee _ _ => callee.hasComma
  | .before _ _ operand => operand.hasComma
  | .behind operand _ _ => operand.hasComma
  | .between left _ op _ right => op.text = [','] || left.hasComma || right.hasComma
  | .conditional test _ _ yes _ _ no => test.hasComma || yes.hasComma || no.hasComma
  | _ => false

/-- Whether the text of an expression starts with a word or a digit. -/
def Code.startsWithWord (e : Code) : Bool :=
  headIs isNameChar e.render

mutual

/-- Whether the tokens of an expression meet as they should. -/
def Code.isProper : Code → Bool
  | .name _ => true
  | .number _ => true
  | .string _ => true
  | .template _ holes => holes.isProper
  | .member base _ _ _ _ => base.isProper && base.ending ≠ .number && !base.endsWithArrow
  | .index base _ _ key _ => base.isProper && !base.endsWithArrow && key.isProper
  | .call callee _ arguments => callee.isProper && !callee.endsWithArrow && arguments.isProper
  | .group _ inner _ => inner.isProper
  | .before op gap operand => operand.isProper && gap.parts op.isWord operand.startsWithWord
  | .behind operand _ _ => operand.isProper && !operand.endsWithArrow
  | .between left beforeOp op behindOp right =>
    left.isProper && right.isProper && (op.text = [','] || !left.endsWithArrow) &&
      beforeOp.parts (left.ending ≠ .mark) op.isWord &&
      behindOp.parts op.isWord right.startsWithWord
  | .conditional test _ _ yes _ _ no =>
    test.isProper && !test.endsWithArrow && yes.isProper && no.isProper
  | .array items => items.isProper
  | .object entries => entries.isProper
  | .arrow async parameters _ _ body =>
    body.isProper && !body.hasComma &&
      async.all fun gap => gap.parts true (headIs isNameChar parameters.text)
  | .function _ _ _ _ body _ => body.isProper

/-- Whether the tokens of items meet as they should. -/
def Codes.isProper : Codes → Bool
  | .none _ => true
  | .last _ _ e _ => e.isProper && !e.hasComma
  | .more _ _ e _ others => e.isProper && !e.hasComma && others.isProper

/-- Whether the tokens of holes meet as they should. -/
def CodeHoles.isProper : CodeHoles → Bool
  | .none => true
  | .more _ e _ _ others => e.isProper && others.isProper

end

end ModuleServer.Expression
