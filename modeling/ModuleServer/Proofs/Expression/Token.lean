import Mathlib.Data.List.Basic
import ModuleServer.Proofs.Expression.FreeNames
import ModuleServer.Proofs.Text.Pieces

/-!
# Tokens of expressions

The text of an expression tree is a sequence of tokens, and so is what is written for it: each name
in the place of an operand, and each entry of an object that is key and value in one, is put into
the context by itself, and every other token is copied. So what is written does not depend on which
names and strings these are, as long as the names that are taken for parameters of functions are
none of the expression's own (`Expr.IsClear`). There are no functions in it, so that is a question
of how its text is read: of the word for a function inside a name, of an arrow inside a string.

* `Expr.flatMap_text_tokens`, `Expr.flatMap_text_resolveTokens`: texts of trees and of resolved
  trees by their tokens.
* `prefixNames?_eq_resolve_iff`: what is written is the resolved tree exactly if the expression is
  clear.
* `prefixNames?_uniform`: under other names and with other strings the same is written, with these.
-/

namespace ModuleServer.Expression

open Text
open List (Sublist)

/-- A token of an expression. -/
inductive Token where
  /-- A name in the place of an operand. -/
  | operand (n : Name)
  /-- A name that is key and value in one. -/
  | entry (n : Name)
  /-- The name of a member or a key. -/
  | property (n : Name)
  /-- A string. -/
  | string (s : Quoted)
  /-- Anything else: numbers, marks, words of the language, the text of template literals, and the
  white space between tokens. -/
  | verbatim (text : Text)

namespace Token

/-- The text of a token. -/
def text : Token → Text
  | operand n => n.text
  | entry n => n.text
  | property n => n.text
  | string s => s.text
  | verbatim t => t

/-- The tokens that are written for a token. -/
def resolve (locals : List Text) : Token → List Token
  | operand n => if n.isFree locals then [verbatim "_ctx.".toList, operand n] else [operand n]
  | entry n =>
    if n.isFree locals then [operand n, verbatim ": _ctx.".toList, operand n] else [entry n]
  | t => [t]

/-- The token under other names: `names` for those that may be looked up in the context,
`properties` for those of members and keys. -/
def rename (names properties : Name → Name) : Token → Token
  | operand n => operand (names n)
  | entry n => entry (names n)
  | property n => property (properties n)
  | t => t

/-- The name that may be looked up in the context. -/
def name? : Token → Option Name
  | operand n => some n
  | entry n => some n
  | _ => none

end Token

/-! ## Tokens of trees -/

mutual

/-- The tokens of an expression. -/
def Expr.tokens : Expr → List Token
  | .name n => [.operand n]
  | .number n => [.verbatim n.text]
  | .string s => [.string s]
  | .template text holes => .verbatim ('`' :: text.text) :: (holes.tokens ++ [.verbatim ['`']])
  | .member base beforeDot optional behindDot n =>
    base.tokens ++
      [.verbatim (beforeDot.text ++ memberMark optional ++ behindDot.text), .property n]
  | .index base beforeBracket first key last =>
    base.tokens ++ .verbatim (beforeBracket.text ++ '[' :: first.text) ::
      (key.tokens ++ [.verbatim (last.text ++ [']'])])
  | .call function beforeBracket arguments =>
    function.tokens ++ .verbatim (beforeBracket.text ++ ['(']) ::
      (arguments.tokens ++ [.verbatim [')']])
  | .group first inner last =>
    .verbatim ('(' :: first.text) :: (inner.tokens ++ [.verbatim (last.text ++ [')'])])
  | .before op gap operand => .verbatim (op.text ++ gap.text) :: operand.tokens
  | .behind operand gap op => operand.tokens ++ [.verbatim (gap.text ++ op.text)]
  | .between left beforeOp op behindOp right =>
    left.tokens ++ .verbatim (beforeOp.text ++ op.text ++ behindOp.text) :: right.tokens
  | .conditional test beforeMark behindMark yes beforeColon behindColon no =>
    test.tokens ++ .verbatim (beforeMark.text ++ ['?'] ++ behindMark.text) ::
      (yes.tokens ++ .verbatim (beforeColon.text ++ [':'] ++ behindColon.text) :: no.tokens)
  | .array items => .verbatim ['['] :: (items.tokens ++ [.verbatim [']']])
  | .object entries => .verbatim ['{'] :: (entries.tokens ++ [.verbatim ['}']])

/-- The tokens of an item. -/
def Item.tokens : Item → List Token
  | .value e => e.tokens
  | .spread e => .verbatim ellipsis :: e.tokens

/-- The tokens of items. -/
def Items.tokens : Items → List Token
  | .none gap => [.verbatim gap.text]
  | .last first item last => .verbatim first.text :: (item.tokens ++ [.verbatim last.text])
  | .more first item last others =>
    .verbatim first.text :: (item.tokens ++ .verbatim (last.text ++ [',']) :: others.tokens)

/-- The tokens of an entry. -/
def Entry.tokens : Entry → List Token
  | .named key beforeColon behindColon value =>
    .property key :: .verbatim (beforeColon.text ++ [':'] ++ behindColon.text) :: value.tokens
  | .quoted key beforeColon behindColon value =>
    .string key :: .verbatim (beforeColon.text ++ [':'] ++ behindColon.text) :: value.tokens
  | .shorthand n => [.entry n]
  | .spread e => .verbatim ellipsis :: e.tokens

/-- The tokens of entries. -/
def Entries.tokens : Entries → List Token
  | .none gap => [.verbatim gap.text]
  | .last first entry last => .verbatim first.text :: (entry.tokens ++ [.verbatim last.text])
  | .more first entry last others =>
    .verbatim first.text :: (entry.tokens ++ .verbatim (last.text ++ [',']) :: others.tokens)

/-- The tokens of holes. -/
def Holes.tokens : Holes → List Token
  | .none => []
  | .more first e last text others =>
    .verbatim ('$' :: '{' :: first.text) ::
      (e.tokens ++ .verbatim (last.text ++ '}' :: text.text) :: others.tokens)

end

mutual

/-- The text of an expression is that of its tokens. -/
theorem Expr.flatMap_text_tokens : ∀ e : Expr, e.tokens.flatMap Token.text = e.render
  | .name _ => by simp [Expr.tokens, Expr.render, Token.text]
  | .number _ => by simp [Expr.tokens, Expr.render, Token.text]
  | .string _ => by simp [Expr.tokens, Expr.render, Token.text]
  | .template _ holes => by
    simp [Expr.tokens, Expr.render, Token.text, holes.flatMap_text_tokens]
  | .member base _ _ _ _ => by
    simp [Expr.tokens, Expr.render, Token.text, base.flatMap_text_tokens]
  | .index base _ _ key _ => by
    simp [Expr.tokens, Expr.render, Token.text, base.flatMap_text_tokens, key.flatMap_text_tokens]
  | .call function _ arguments => by
    simp [Expr.tokens, Expr.render, Token.text, function.flatMap_text_tokens,
      arguments.flatMap_text_tokens]
  | .group _ inner _ => by
    simp [Expr.tokens, Expr.render, Token.text, inner.flatMap_text_tokens]
  | .before _ _ operand => by
    simp [Expr.tokens, Expr.render, Token.text, operand.flatMap_text_tokens]
  | .behind operand _ _ => by
    simp [Expr.tokens, Expr.render, Token.text, operand.flatMap_text_tokens]
  | .between left _ _ _ right => by
    simp [Expr.tokens, Expr.render, Token.text, left.flatMap_text_tokens,
      right.flatMap_text_tokens]
  | .conditional test _ _ yes _ _ no => by
    simp [Expr.tokens, Expr.render, Token.text, test.flatMap_text_tokens,
      yes.flatMap_text_tokens, no.flatMap_text_tokens]
  | .array items => by simp [Expr.tokens, Expr.render, Token.text, items.flatMap_text_tokens]
  | .object entries => by
    simp [Expr.tokens, Expr.render, Token.text, entries.flatMap_text_tokens]

theorem Item.flatMap_text_tokens : ∀ item : Item, item.tokens.flatMap Token.text = item.render
  | .value e => e.flatMap_text_tokens
  | .spread e => by simp [Item.tokens, Item.render, Token.text, e.flatMap_text_tokens]

theorem Items.flatMap_text_tokens : ∀ items : Items, items.tokens.flatMap Token.text = items.render
  | .none _ => by simp [Items.tokens, Items.render, Token.text]
  | .last _ item _ => by simp [Items.tokens, Items.render, Token.text, item.flatMap_text_tokens]
  | .more _ item _ others => by
    simp [Items.tokens, Items.render, Token.text, item.flatMap_text_tokens,
      others.flatMap_text_tokens]

theorem Entry.flatMap_text_tokens : ∀ entry : Entry, entry.tokens.flatMap Token.text = entry.render
  | .named _ _ _ value => by
    simp [Entry.tokens, Entry.render, Token.text, value.flatMap_text_tokens]
  | .quoted _ _ _ value => by
    simp [Entry.tokens, Entry.render, Token.text, value.flatMap_text_tokens]
  | .shorthand _ => by simp [Entry.tokens, Entry.render, Token.text]
  | .spread e => by simp [Entry.tokens, Entry.render, Token.text, e.flatMap_text_tokens]

theorem Entries.flatMap_text_tokens :
    ∀ entries : Entries, entries.tokens.flatMap Token.text = entries.render
  | .none _ => by simp [Entries.tokens, Entries.render, Token.text]
  | .last _ entry _ => by
    simp [Entries.tokens, Entries.render, Token.text, entry.flatMap_text_tokens]
  | .more _ entry _ others => by
    simp [Entries.tokens, Entries.render, Token.text, entry.flatMap_text_tokens,
      others.flatMap_text_tokens]

theorem Holes.flatMap_text_tokens : ∀ holes : Holes, holes.tokens.flatMap Token.text = holes.render
  | .none => rfl
  | .more _ e _ _ others => by
    simp [Holes.tokens, Holes.render, Token.text, e.flatMap_text_tokens,
      others.flatMap_text_tokens]

end

/-! ## Resolved trees -/

section Resolved

variable (locals : List Text)

/-- The tokens that are written for tokens. -/
def resolveTokens (tokens : List Token) : List Token :=
  tokens.flatMap (Token.resolve locals)

@[simp] theorem resolveTokens_append (tokens tokens' : List Token) :
    resolveTokens locals (tokens ++ tokens') =
      resolveTokens locals tokens ++ resolveTokens locals tokens' :=
  List.flatMap_append

/-- Strings and all that is no name are copied, and so are the names of members and keys. -/
@[simp] theorem resolveTokens_verbatim (t : Text) (tokens : List Token) :
    resolveTokens locals (.verbatim t :: tokens) = .verbatim t :: resolveTokens locals tokens :=
  rfl

@[simp] theorem resolveTokens_string (s : Quoted) (tokens : List Token) :
    resolveTokens locals (.string s :: tokens) = .string s :: resolveTokens locals tokens :=
  rfl

@[simp] theorem resolveTokens_property (n : Name) (tokens : List Token) :
    resolveTokens locals (.property n :: tokens) = .property n :: resolveTokens locals tokens :=
  rfl

@[simp] theorem resolveTokens_nil : resolveTokens locals [] = [] :=
  rfl

mutual

/-- The text of a resolved tree is that of the tokens that are written for its tokens. -/
theorem Expr.flatMap_text_resolveTokens : ∀ e : Expr,
    (resolveTokens locals e.tokens).flatMap Token.text = (e.resolve locals).render
  | .name n => by
    cases hfree : n.isFree locals <;>
      simp [Expr.tokens, Expr.resolve, resolveTokens, Token.resolve, Token.text, hfree, Expr.render,
        Name.inContext, Gap.none, Name.context, memberMark]
  | .number _ => by simp [Expr.tokens, Expr.resolve, Expr.render, Token.text]
  | .string _ => by simp [Expr.tokens, Expr.resolve, Expr.render, Token.text]
  | .template _ holes => by
    simp [Expr.tokens, Expr.resolve, Expr.render, Token.text, holes.flatMap_text_resolveTokens]
  | .member base _ _ _ _ => by
    simp [Expr.tokens, Expr.resolve, Expr.render, Token.text, base.flatMap_text_resolveTokens]
  | .index base _ _ key _ => by
    simp [Expr.tokens, Expr.resolve, Expr.render, Token.text, base.flatMap_text_resolveTokens,
      key.flatMap_text_resolveTokens]
  | .call function _ arguments => by
    simp [Expr.tokens, Expr.resolve, Expr.render, Token.text, function.flatMap_text_resolveTokens,
      arguments.flatMap_text_resolveTokens]
  | .group _ inner _ => by
    simp [Expr.tokens, Expr.resolve, Expr.render, Token.text, inner.flatMap_text_resolveTokens]
  | .before _ _ operand => by
    simp [Expr.tokens, Expr.resolve, Expr.render, Token.text, operand.flatMap_text_resolveTokens]
  | .behind operand _ _ => by
    simp [Expr.tokens, Expr.resolve, Expr.render, Token.text, operand.flatMap_text_resolveTokens]
  | .between left _ _ _ right => by
    simp [Expr.tokens, Expr.resolve, Expr.render, Token.text, left.flatMap_text_resolveTokens,
      right.flatMap_text_resolveTokens]
  | .conditional test _ _ yes _ _ no => by
    simp [Expr.tokens, Expr.resolve, Expr.render, Token.text, test.flatMap_text_resolveTokens,
      yes.flatMap_text_resolveTokens, no.flatMap_text_resolveTokens]
  | .array items => by
    simp [Expr.tokens, Expr.resolve, Expr.render, Token.text, items.flatMap_text_resolveTokens]
  | .object entries => by
    simp [Expr.tokens, Expr.resolve, Expr.render, Token.text, entries.flatMap_text_resolveTokens]

theorem Item.flatMap_text_resolveTokens : ∀ item : Item,
    (resolveTokens locals item.tokens).flatMap Token.text = (item.resolve locals).render
  | .value e => e.flatMap_text_resolveTokens
  | .spread e => by
    simp [Item.tokens, Item.resolve, Item.render, Token.text, e.flatMap_text_resolveTokens]

theorem Items.flatMap_text_resolveTokens : ∀ items : Items,
    (resolveTokens locals items.tokens).flatMap Token.text = (items.resolve locals).render
  | .none _ => by simp [Items.tokens, Items.resolve, Items.render, Token.text]
  | .last _ item _ => by
    simp [Items.tokens, Items.resolve, Items.render, Token.text, item.flatMap_text_resolveTokens]
  | .more _ item _ others => by
    simp [Items.tokens, Items.resolve, Items.render, Token.text, item.flatMap_text_resolveTokens,
      others.flatMap_text_resolveTokens]

theorem Entry.flatMap_text_resolveTokens : ∀ entry : Entry,
    (resolveTokens locals entry.tokens).flatMap Token.text = (entry.resolve locals).render
  | .named _ _ _ value => by
    simp [Entry.tokens, Entry.resolve, Entry.render, Token.text, value.flatMap_text_resolveTokens]
  | .quoted _ _ _ value => by
    simp [Entry.tokens, Entry.resolve, Entry.render, Token.text, value.flatMap_text_resolveTokens]
  | .shorthand n => by
    cases hfree : n.isFree locals <;>
      simp [Entry.tokens, Entry.resolve, resolveTokens, Token.resolve, Token.text, hfree,
        Entry.render, Expr.render, Name.inContext, Gap.none, Gap.space, Name.context, memberMark]
  | .spread e => by
    simp [Entry.tokens, Entry.resolve, Entry.render, Token.text, e.flatMap_text_resolveTokens]

theorem Entries.flatMap_text_resolveTokens : ∀ entries : Entries,
    (resolveTokens locals entries.tokens).flatMap Token.text = (entries.resolve locals).render
  | .none _ => by simp [Entries.tokens, Entries.resolve, Entries.render, Token.text]
  | .last _ entry _ => by
    simp [Entries.tokens, Entries.resolve, Entries.render, Token.text,
      entry.flatMap_text_resolveTokens]
  | .more _ entry _ others => by
    simp [Entries.tokens, Entries.resolve, Entries.render, Token.text,
      entry.flatMap_text_resolveTokens, others.flatMap_text_resolveTokens]

theorem Holes.flatMap_text_resolveTokens : ∀ holes : Holes,
    (resolveTokens locals holes.tokens).flatMap Token.text = (holes.resolve locals).render
  | .none => rfl
  | .more _ e _ _ others => by
    simp [Holes.tokens, Holes.resolve, Holes.render, Token.text, e.flatMap_text_resolveTokens,
      others.flatMap_text_resolveTokens]

end

end Resolved

/-! ## What is written -/

section Written

variable {locals : List Text} {e e' : Expr} {tokens : List Token}

/-- Whether none of the names that are taken for parameters in the text of an expression is a free
name of the expression. -/
def Expr.IsClear (locals : List Text) (e : Expr) : Prop :=
  ∃ names, parameterNames? e.render = some names ∧
    ∀ t ∈ e.tokens, ∀ n, t.name? = some n → n.isFree locals → n.text ∉ names

/-- What is written for an expression, whatever is taken for a parameter in it. -/
theorem prefixNames?_of_parameterNames? (he : e.isProper) {names : List Text}
    (h : parameterNames? e.render = some names) :
    prefixNames? locals e.render =
      some ((resolveTokens (names ++ locals) e.tokens).flatMap Token.text) := by
  have hwrite := write_render (names ++ locals) .none .none he
  rw [Gap.none, List.nil_append, List.append_nil, List.nil_append, List.append_nil] at hwrite
  rw [prefixNames?, h, Expr.flatMap_text_resolveTokens]
  exact congrArg some hwrite

theorem Token.resolve_append {names : List Text} {t : Token}
    (h : ∀ n, t.name? = some n → n.isFree locals → n.text ∉ names) :
    t.resolve (names ++ locals) = t.resolve locals := by
  have hfree : ∀ n, t.name? = some n → n.isFree (names ++ locals) = n.isFree locals := by
    intro n hn
    rw [Name.isFree_append]
    cases hlocals : n.isFree locals with
    | false => rfl
    | true => simpa using h n hn hlocals
  cases t with
  | operand n => rw [resolve, resolve, hfree n rfl]
  | entry n => rw [resolve, resolve, hfree n rfl]
  | _ => rfl

/-- The tokens of a clear expression are each written by itself. -/
theorem prefixNames?_of_tokens (he : e.isProper) (hclear : e.IsClear locals) :
    prefixNames? locals e.render = some ((resolveTokens locals e.tokens).flatMap Token.text) := by
  obtain ⟨names, hnames, hfree⟩ := hclear
  have hsame : resolveTokens (names ++ locals) e.tokens = resolveTokens locals e.tokens :=
    List.flatMap_congr fun t ht => Token.resolve_append (hfree t ht)
  rw [prefixNames?_of_parameterNames? he hnames, hsame]

/-! ### Expressions that are not clear -/

/-- Where more names are bound, less is written. -/
theorem Token.sublist_resolve_append (names : List Text) (t : Token) :
    Sublist ((t.resolve (names ++ locals)).flatMap Token.text)
      ((t.resolve locals).flatMap Token.text) := by
  cases t with
  | operand n =>
    rw [resolve, resolve, Name.isFree_append]
    cases n.isFree locals with
    | false => exact Sublist.refl _
    | true =>
      cases names.contains n.text with
      | false => exact Sublist.refl _
      | true => simpa [Token.text] using List.sublist_append_right "_ctx.".toList n.text
  | entry n =>
    rw [resolve, resolve, Name.isFree_append]
    cases n.isFree locals with
    | false => exact Sublist.refl _
    | true =>
      cases names.contains n.text with
      | false => exact Sublist.refl _
      | true => simp [Token.text]
  | _ => exact Sublist.refl _

/-- A free name is put into the context in every place that it may be looked up in. -/
theorem Token.text_ne_of_isFree {t : Token} {n : Name} (hn : t.name? = some n)
    (hfree : n.isFree locals) : (t.resolve locals).flatMap Token.text ≠ t.text := by
  intro h
  have hlength := congrArg List.length h
  cases t with
  | operand m =>
    cases hn
    simp [resolve, hfree, Token.text] at hlength
    omega
  | entry m =>
    cases hn
    simp [resolve, hfree, Token.text] at hlength
  | _ => cases hn

/-- What is written for an expression is its resolved tree exactly if the expression is clear. -/
theorem prefixNames?_eq_resolve_iff (he : e.isProper) :
    prefixNames? locals e.render = some (e.resolve locals).render ↔ e.IsClear locals := by
  rw [← Expr.flatMap_text_resolveTokens]
  refine ⟨fun h => ?_, prefixNames?_of_tokens he⟩
  obtain ⟨names, hnames, -⟩ := Option.map_eq_some_iff.1 h
  refine ⟨names, hnames, fun t ht n hn hfree hmem => ?_⟩
  rw [prefixNames?_of_parameterNames? he hnames] at h
  have hall := Option.some.inj h
  rw [resolveTokens, resolveTokens, List.flatMap_assoc, List.flatMap_assoc] at hall
  have hsame := eq_of_flatMap_eq (fun t _ => t.sublist_resolve_append names) hall t ht
  -- a name that is bound is copied
  have hbound : n.isFree (names ++ locals) = false := by
    rw [Name.isFree_append]
    simp [hmem]
  refine Token.text_ne_of_isFree hn hfree (hsame.symm.trans ?_)
  cases t with
  | operand m =>
    cases hn
    simp [Token.resolve, hbound, Token.text]
  | entry m =>
    cases hn
    simp [Token.resolve, hbound, Token.text]
  | _ => cases hn

/-- What stands in brackets behind the word for a function is taken for its parameters, also if the
word is a part of a name. -/
example : prefixNames? [] "functions(a)".toList = some "_ctx.functions(a)".toList := by
  decide +kernel

/-- So is a name before an arrow, also in a string. -/
example : prefixNames? [] "'x=>' + x".toList = some "'x=>' + x".toList := by
  decide +kernel

/-! ### Other names and other strings -/

/-- Whether names that are looked up in the context stay such under others, and all others stay what
they are. -/
def KeepsFree (locals : List Text) (rename : Name → Name) : Prop :=
  ∀ n : Name, (n.isFree locals → (rename n).isFree locals) ∧
    (n.isFree locals = false → rename n = n)

theorem KeepsFree.isFree {rename : Name → Name} (h : KeepsFree locals rename) (n : Name) :
    (rename n).isFree locals = n.isFree locals := by
  cases hfree : n.isFree locals with
  | true => exact (h n).1 hfree
  | false => rw [(h n).2 hfree, hfree]

theorem resolveTokens_rename {names : Name → Name} (properties : Name → Name)
    (h : KeepsFree locals names) (tokens : List Token) :
    resolveTokens locals (tokens.map (Token.rename names properties)) =
      (resolveTokens locals tokens).map (Token.rename names properties) := by
  have hone : ∀ t : Token, (t.rename names properties).resolve locals =
      (t.resolve locals).map (Token.rename names properties) := by
    intro t
    cases t with
    | operand n =>
      cases hfree : n.isFree locals <;>
        simp [Token.rename, Token.resolve, h.isFree, hfree]
    | entry n =>
      cases hfree : n.isFree locals <;>
        simp [Token.rename, Token.resolve, h.isFree, hfree]
    | _ => rfl
  rw [resolveTokens, resolveTokens, List.flatMap_map, List.map_flatMap]
  exact List.flatMap_congr fun t _ => hone t

/-- What is written does not depend on which names and strings stand in an expression. Under other
names for those that are looked up in the context, and for members and keys, the same is written
under these names; and with another string in one place, the same is written with this string there.
-/
theorem prefixNames?_uniform (locals : List Text) {e e' : Expr} (he : e.isProper)
    (he' : e'.isProper) (hclear : e.IsClear locals) (hclear' : e'.IsClear locals) :
    prefixNames? locals e.render = some ((resolveTokens locals e.tokens).flatMap Token.text) ∧
      (∀ names properties : Name → Name, KeepsFree locals names →
        e'.tokens = e.tokens.map (Token.rename names properties) →
          prefixNames? locals e'.render =
            some (((resolveTokens locals e.tokens).map (Token.rename names properties)).flatMap
              Token.text)) ∧
      ∀ (before behind : List Token) (s s' : Quoted), e.tokens = before ++ .string s :: behind →
        e'.tokens = before ++ .string s' :: behind → ∃ out out',
          prefixNames? locals e.render = some (out ++ s.text ++ out') ∧
            prefixNames? locals e'.render = some (out ++ s'.text ++ out') := by
  have hwritten := prefixNames?_of_tokens he hclear
  have hwritten' := prefixNames?_of_tokens he' hclear'
  refine ⟨hwritten, ?_, ?_⟩
  · intro names properties hkeeps htokens
    rw [hwritten', htokens, resolveTokens_rename properties hkeeps]
  · intro before behind s s' htokens htokens'
    refine ⟨(resolveTokens locals before).flatMap Token.text,
      (resolveTokens locals behind).flatMap Token.text, ?_, ?_⟩
    · rw [hwritten, htokens]
      simp [Token.text]
    · rw [hwritten', htokens']
      simp [Token.text]

/-- A name twice, once in a hole, where a string stands beside it. -/
def greeting (n : Name) (s : Quoted) : Expr :=
  .between (.name n) .space (.mk "+".toList) .space <|
    .template (.mk [.plain '-']) <| .more .none
      (.call (.name (.mk "greet".toList)) .none <| .more .none (.value (.string s)) .none <|
        .last .space (.value (.name n)) .none)
      .none (.mk [.plain '!']) .none

theorem prefixNames?_uniform_greeting :
    let text : Name → Quoted → Text := fun n s => (greeting n s).render
    let a : Name := .mk "a".toList
    let b : Name := .mk "of_b".toList
    let hi : Quoted := .mk '\'' [.plain 'h', .plain 'i']
    let arrow : Quoted := .mk '\'' [.plain '=', .plain '>', .escaped '\'']
    text a hi = "a + `-$\x7bgreet('hi', a)\x7d!`".toList ∧
      prefixNames? [] (text a hi) =
        some "_ctx.a + `-$\x7b_ctx.greet('hi', _ctx.a)\x7d!`".toList ∧
      prefixNames? [] (text b hi) =
        some "_ctx.of_b + `-$\x7b_ctx.greet('hi', _ctx.of_b)\x7d!`".toList ∧
      ∃ out out', prefixNames? [] (text a hi) = some (out ++ hi.text ++ out') ∧
        prefixNames? [] (text a arrow) = some (out ++ arrow.text ++ out') := by
  intro text a b hi arrow
  have hclear : ∀ n s, parameterNames? (text n s) = some [] → (greeting n s).IsClear [] :=
    fun n s h => ⟨[], h, fun _ _ _ _ _ => List.not_mem_nil⟩
  have ha := hclear a hi (by decide +kernel)
  have hkeeps : KeepsFree [] fun n => if n.text = a.text then b else n := by
    intro n
    dsimp only
    split
    · rename_i hn
      refine ⟨fun _ => by decide +kernel, fun hfree => ?_⟩
      rw [Name.isFree, hn] at hfree
      exact absurd hfree (by decide +kernel)
    · exact ⟨id, fun _ => rfl⟩
  obtain ⟨hwritten, hrenamed, -⟩ := prefixNames?_uniform [] (by decide +kernel)
    (by decide +kernel) ha (hclear b hi (by decide +kernel))
  obtain ⟨-, -, hrewritten⟩ := prefixNames?_uniform [] (by decide +kernel)
    (by decide +kernel) ha (hclear a arrow (by decide +kernel))
  refine ⟨by decide +kernel, hwritten.trans (by decide +kernel), ?_, ?_⟩
  · exact (hrenamed _ id hkeeps rfl).trans (by decide +kernel)
  · refine hrewritten ((greeting a hi).tokens.take 7) ((greeting a hi).tokens.drop 8) hi arrow ?_ ?_
    · rfl
    · rfl

end Written

end ModuleServer.Expression
