import Mathlib.Data.List.Basic
import ModuleServer.Proofs.Expression.Lambda
import ModuleServer.Proofs.Expression.Parameters
import ModuleServer.Proofs.Expression.Split
import ModuleServer.Proofs.Text.Pieces

/-!
# Parameters of arrows

The parameters of all arrows in an expression are found by what stands before each arrow of its
text. They are bound in the whole expression, not only in the body of their own arrow: what is
written is what the bodies ask for exactly if no parameter is used outside of its arrow as a name of
the context.

* `Binds`: which names the arrows in a stretch of text bind; stretches are put together by
  `Binds.append`, and `Binds.arrow` reads the parameters of one arrow.
* `Lambda.binds`: by induction on the tree, the arrows of an expression bind its parameters.
* `prefixNames?_places`: every name in the place of an operand is put into the context unless it is
  a word of the language, an allowed global, bound outside, or a parameter of any arrow.
-/

namespace ModuleServer.Expression

open Text
open List (Sublist)

/-! ## Parameters before an arrow -/

theorem firstVisible?_gap_nil (gap : Gap) : firstVisible? gap.text = none := by
  have hdrop : (gap.text ++ []).dropWhile isWhite = [] := dropWhile_run gap.white rfl
  rw [List.append_nil] at hdrop
  rw [firstVisible?, trimStart, hdrop]
  rfl

/-- The names of a list are found, words of the language aside. -/
theorem Names.bindingNames_text : ∀ names : Names,
    bindingNames names.text = (names.toList.map Name.text).filter fun n => !isKeyword n
  | .none gap => by
    have hgap := bindingNames_gap gap []
    rw [List.append_nil] at hgap
    rw [Names.text, hgap]
    simp [Names.toList, bindingNames]
  | .last first n behind => by
    have hrest : headIs isNameChar (behind.text ++ []) = false :=
      headIs_gap behind (fun _ => isNameChar_of_white) fun _ => rfl
    have hname := bindingNames_name n hrest
    rw [bindingNames_gap, List.append_nil, firstVisible?_gap_nil] at hname
    rw [Names.text, List.append_assoc, bindingNames_gap, hname]
    cases hkey : isKeyword n.text <;> simp [Names.toList, hkey, bindingNames]
  | .more first n behind others => by
    have hrest : headIs isNameChar (behind.text ++ ',' :: others.text) = false :=
      headIs_isNameChar (headIs_gapMark behind (by decide) _)
    have hname := bindingNames_name n hrest
    rw [firstVisible?_gap behind (by decide), bindingNames_gap,
      bindingNames_skip (by decide) (by decide), others.bindingNames_text] at hname
    rw [Names.text, List.append_assoc, List.append_assoc, bindingNames_gap, hname]
    cases hkey : isKeyword n.text <;> simp [Names.toList, hkey]

theorem Name.headIs_isNameChar_text (n : Name) : headIs isNameChar n.text := by
  cases htext : n.text with
  | nil => exact absurd htext n.text_ne_nil
  | cons c t => exact List.all_eq_true.1 (all_isNameChar n) c (htext ▸ List.mem_cons_self)

/-- A group without brackets inside of it ends at the first bracket. -/
theorem closeGroup?_flat {opening closing : Char} {t : Text}
    (h : ∀ c ∈ t, c ≠ opening ∧ c ≠ closing) (rest : Text) :
    closeGroup? opening closing 0 (t ++ closing :: rest) = some (t, rest) := by
  induction t with
  | nil => simp [closeGroup?]
  | cons c t ih =>
    obtain ⟨hc, ht⟩ := List.forall_mem_cons.1 h
    rw [List.cons_append, closeGroup?, if_neg hc.2, if_neg hc.1, ih ht]
    rfl

/-- Before an arrow its parameters are found, words of the language aside, if any can be told. -/
theorem Parameters.mem_of_parametersBefore? (parameters : Parameters) (gap : Gap)
    {seen : Text} {names : List Text}
    (hseen : headIs isNameChar parameters.text → headIs isNameChar seen = false)
    (h : parametersBefore? (gap.text.reverse ++ (parameters.text.reverse ++ seen)) = some names)
    {x : Text} (hx : isKeyword x = false) :
    x ∈ names ↔ x ∈ parameters.toList.map Name.text := by
  have hgap : gap.text.reverse.all isWhite := by simpa using gap.white
  cases parameters with
  | lone n =>
    have hbefore : headIs isNameChar seen = false := hseen n.headIs_isNameChar_text
    have hbracket := (headIs_name (p := (· = ')')) n
      (fun c hc => decide_eq_false (ne_of_class hc (by decide))) seen).2
    rw [Parameters.text, parametersBefore?_lone hgap (by simpa using all_isNameChar n) hbefore
      (by simp [n.text_ne_nil]) hbracket] at h
    have hnames : [n.text] = names := by
      cases seen with
      | nil => simpa [n.text_ne_nil] using h
      | cons c seen => simpa [n.text_ne_nil] using (Option.ite_none_right_eq_some.1 h).2
    simp [← hnames, Parameters.toList]
  | listed names' =>
    have hflat : ∀ c ∈ names'.text.reverse, c ≠ ')' ∧ c ≠ '(' := by
      intro c hc
      rw [List.mem_reverse] at hc
      exact ⟨ne_of_mem_run names'.all_text (by decide) c hc,
        ne_of_mem_run names'.all_text (by decide) c hc⟩
    have htext : (Parameters.listed names').text.reverse ++ seen =
        ')' :: (names'.text.reverse ++ '(' :: seen) := by
      simp [Parameters.text]
    rw [htext, parametersBefore?, dropWhile_run hgap rfl] at h
    simp only [closeGroup?_flat hflat, List.reverse_reverse, Option.some.injEq,
      names'.bindingNames_text] at h
    simp [← h, Parameters.toList, hx]

/-! ## Arrows in stretches of text -/

section Equals

/-- Most tokens have no equals sign, so that no arrow starts in them. -/
theorem equals_not_mem_of_all {p : Char → Bool} {t : Text} (h : t.all p) (hp : p '=' = false) :
    '=' ∉ t :=
  fun hmem => ne_of_mem_run h hp _ hmem rfl

@[simp] theorem Gap.equals_not_mem (gap : Gap) : '=' ∉ gap.text :=
  equals_not_mem_of_all gap.white (by decide)

@[simp] theorem Name.equals_not_mem (n : Name) : '=' ∉ n.text :=
  equals_not_mem_of_all (all_isNameChar n) (by decide)

@[simp] theorem Number.equals_not_mem (n : Number) : '=' ∉ n.text :=
  equals_not_mem_of_all n.all_chars (by decide)

@[simp] theorem equals_not_mem_memberMark (optional : Bool) : '=' ∉ memberMark optional := by
  cases optional <;> decide

@[simp] theorem Parameters.equals_not_mem (parameters : Parameters) : '=' ∉ parameters.text := by
  cases parameters with
  | lone n => exact n.equals_not_mem
  | listed names =>
    have hnames : '=' ∉ names.text := equals_not_mem_of_all names.all_text (by decide)
    simp [text, hnames]

end Equals

/-- In the text `t` behind `seen` and before `rest`, the parameters of the arrows are `names`, words
of the language aside, if the parameters of all arrows can be told. -/
def Binds (seen t rest : Text) (names : List Text) : Prop :=
  ∀ all, arrowParameters? seen (t ++ rest) = some all → ∃ here later, all = here ++ later ∧
    arrowParameters? (t.reverse ++ seen) rest = some later ∧
      ∀ x, isKeyword x = false → (x ∈ here ↔ x ∈ names)

/-- Behind a text that neither has an arrow nor starts one, the arrows are those of the rest. -/
theorem arrowParameters?_append {t rest : Text} (harrow : has arrowMark t = false)
    (hlast : t.getLast? = some '=' → headIs (· = '>') rest = false) (seen : Text) :
    arrowParameters? seen (t ++ rest) = arrowParameters? (t.reverse ++ seen) rest := by
  induction t generalizing seen with
  | nil => rfl
  | cons c t ih =>
    obtain ⟨hafter, ht⟩ := has_of_cons harrow
    have hrest : t.getLast? = some '=' → headIs (· = '>') rest = false := fun h => by
      cases t with
      | nil => cases h
      | cons d t => exact hlast (by rwa [List.getLast?_cons_cons])
    rw [List.cons_append, arrowParameters?, ih ht hrest, List.reverse_cons, List.append_assoc]
    · rfl
    · rintro r rfl hr
      cases t with
      | nil =>
        rw [List.nil_append] at hr
        subst hr
        exact absurd (hlast rfl) (by simp [headIs])
      | cons d t =>
        obtain ⟨rfl, -⟩ := List.cons.inj hr
        simp [arrowMark, after?] at hafter

namespace Binds

variable {seen t u rest : Text} {names names' : List Text}

theorem append (ht : Binds seen t (u ++ rest) names)
    (hu : Binds (t.reverse ++ seen) u rest names') :
    Binds seen (t ++ u) rest (names ++ names') := by
  intro all hall
  rw [List.append_assoc] at hall
  obtain ⟨here₁, later₁, rfl, hlater₁, hiff₁⟩ := ht all hall
  obtain ⟨here₂, later₂, rfl, hlater₂, hiff₂⟩ := hu later₁ hlater₁
  refine ⟨here₁ ++ here₂, later₂, (List.append_assoc ..).symm, ?_, fun x hx => ?_⟩
  · rwa [List.reverse_append, List.append_assoc]
  · rw [List.mem_append, List.mem_append, hiff₁ x hx, hiff₂ x hx]

/-- A text without arrows binds nothing. -/
theorem of_no_arrow (harrow : has arrowMark t = false)
    (hlast : t.getLast? = some '=' → headIs (· = '>') rest = false) : Binds seen t rest [] := by
  intro all hall
  rw [arrowParameters?_append harrow hlast] at hall
  exact ⟨[], all, rfl, hall, fun _ _ => Iff.rfl⟩

theorem of_not_mem (h : '=' ∉ t) : Binds seen t rest [] :=
  of_no_arrow (has_eq_false h) fun hlast => absurd (List.mem_of_getLast? hlast) h

/-- Text without an equals sign may stand before a stretch, and behind one. -/
theorem behind (ht : '=' ∉ t) (hu : Binds (t.reverse ++ seen) u rest names) :
    Binds seen (t ++ u) rest names :=
  (of_not_mem ht).append hu

theorem before (ht : Binds seen t (u ++ rest) names) (hu : '=' ∉ u) :
    Binds seen (t ++ u) rest names := by
  simpa using ht.append (of_not_mem hu)

theorem mark {c : Char} (hc : c ≠ '=') (hu : Binds (c :: seen) u rest names) :
    Binds seen (c :: u) rest names :=
  behind (t := [c]) (by simpa using hc.symm) hu

/-- The parameters before an arrow and the arrow itself. -/
theorem arrow (parameters : Parameters) (gap : Gap) (rest : Text)
    (hseen : headIs isNameChar parameters.text → headIs isNameChar seen = false) :
    Binds seen (parameters.text ++ (gap.text ++ arrowMark)) rest
      (parameters.toList.map Name.text) := by
  intro all hall
  have hplain : '=' ∉ parameters.text ++ gap.text := by simp
  rw [← List.append_assoc, List.append_assoc, arrowParameters?_append (has_eq_false hplain)
    fun hlast => absurd (List.mem_of_getLast? hlast) hplain] at hall
  rw [arrowMark, List.cons_append, List.cons_append, List.nil_append, arrowParameters?,
    List.reverse_append, List.append_assoc] at hall
  split at hall
  · rename_i here later hhere hlater
    refine ⟨here, later, (Option.some.inj hall).symm, ?_, fun x hx => ?_⟩
    · simpa [arrowMark] using hlater
    · exact parameters.mem_of_parametersBefore? gap hseen hhere hx
  · cases hall

end Binds

/-! ## Arrows of expressions -/

section Tokens

variable {seen t rest : Text}

/-- Behind white space, or without any, no name goes on where none does before it. -/
theorem headIs_reverse_gap (gap : Gap) (h : headIs isNameChar seen = false) :
    headIs isNameChar (gap.text.reverse ++ seen) = false :=
  headIs_gap ⟨gap.text.reverse, by simpa using gap.white⟩ (fun _ => isNameChar_of_white) fun _ => h

/-- Behind an operator no name goes on: a word does not touch a name behind it. -/
theorem headIs_reverse_operator (op : Operator binaryMarks binaryWords) (gap : Gap)
    (hparts : gap.parts op.isWord true) :
    headIs isNameChar (gap.text.reverse ++ (op.text.reverse ++ seen)) = false := by
  rcases op.known_cases with ⟨-, hmem⟩ | ⟨hword, -⟩
  · obtain ⟨hne, hplain, -⟩ := binaryMarks_plain _ hmem
    exact headIs_reverse_gap gap <| headIs_isNameChar <|
      headIs_marks (t := op.text.reverse) (by simpa using hne) (by simpa using hplain) seen
  · refine headIs_gap ⟨gap.text.reverse, by simpa using gap.white⟩ (fun _ => isNameChar_of_white)
      fun hempty => ?_
    simp [Gap.parts, hword, List.reverse_eq_nil_iff.1 hempty] at hparts

/-- An operator has no arrow, and what stands behind it does not make one of it. -/
theorem Operator.binds (op : Operator binaryMarks binaryWords) (gap : Gap) (ht : startsOperand t) :
    Binds seen op.text (gap.text ++ t ++ rest) [] := by
  have hall : ∀ word ∈ binaryMarks ++ binaryWords, has arrowMark word = false := by decide
  refine Binds.of_no_arrow (hall _ op.known) fun _ => ?_
  rw [List.append_assoc]
  refine headIs_gap gap (fun c hc => decide_eq_false (ne_of_class hc (by decide))) fun _ => ?_
  cases t with
  | nil => cases ht
  | cons c t => simp_all [startsOperand, headIs]

theorem Code.render_ne_nil (e : Code) : e.render ≠ [] :=
  ne_nil_of_startsOperand e.render_startsOperand

end Tokens

mutual

/-- The arrows of an expression bind its parameters. A lone parameter that starts it does not go on
from a name before it. -/
theorem Lambda.binds : ∀ (e : Lambda) (seen rest : Text), e.toCode.isProper →
    (headIs isNameChar e.toCode.render → headIs isNameChar seen = false) →
    Binds seen e.toCode.render rest e.parameters
  | .name n, _, _, _, _ => Binds.of_not_mem n.equals_not_mem
  | .number n, _, _, _, _ => Binds.of_not_mem n.equals_not_mem
  | .member base _ _ _ _, seen, rest, hp, hseen => by
    simp only [Lambda.toCode, Code.isProper, Bool.and_eq_true] at hp
    exact (base.binds seen _ hp.1.1 fun h =>
      hseen ((headIs_append base.toCode.render_ne_nil _).trans h)).before (by simp)
  | .call callee beforeBracket arguments, seen, rest, hp, hseen => by
    simp only [Lambda.toCode, Code.isProper, Bool.and_eq_true] at hp
    refine (callee.binds seen _ hp.1.1 fun h =>
      hseen ((headIs_append callee.toCode.render_ne_nil _).trans h)).append ?_
    exact Binds.behind (by simp) <| Binds.mark (by decide) <|
      (arguments.binds _ _ hp.2 rfl).before (by simp)
  | .group first inner last, seen, rest, hp, _ => by
    refine Binds.mark (by decide) (Binds.before (Binds.before ?_ (by simp)) (by simp))
    exact Binds.behind (by simp) (inner.binds _ _ hp fun _ => headIs_reverse_gap first rfl)
  | .between left beforeOp op behindOp right, seen, rest, hp, hseen => by
    simp only [Lambda.toCode, Code.isProper, Bool.and_eq_true] at hp
    obtain ⟨⟨⟨⟨hleft, hright⟩, -⟩, -⟩, hbehind⟩ := hp
    refine (left.binds seen _ hleft fun h =>
      hseen ((headIs_append left.toCode.render_ne_nil _).trans h)).append ?_
    refine Binds.behind (by simp) ?_
    refine (op.binds behindOp right.toCode.render_startsOperand).append (Binds.behind (by simp) ?_)
    exact right.binds _ _ hright fun h => headIs_reverse_operator op behindOp (by
      rwa [Code.startsWithWord, h] at hbehind)
  | .conditional test beforeMark behindMark yes beforeColon behindColon no, seen, rest, hp,
      hseen => by
    simp only [Lambda.toCode, Code.isProper, Bool.and_eq_true] at hp
    obtain ⟨⟨⟨htest, -⟩, hyes⟩, hno⟩ := hp
    rw [Lambda.parameters, List.append_assoc]
    refine (test.binds seen _ htest fun h =>
      hseen ((headIs_append test.toCode.render_ne_nil _).trans h)).append ?_
    refine Binds.behind (by simp) (Binds.mark (by decide) ?_)
    refine Binds.append (Binds.before (Binds.behind (by simp) ?_) (by simp)) ?_
    · exact yes.binds _ _ hyes fun _ => headIs_reverse_gap behindMark rfl
    · exact Binds.mark (by decide) <| Binds.behind (by simp) <|
        no.binds _ _ hno fun _ => headIs_reverse_gap behindColon rfl
  | .array items, seen, rest, hp, _ =>
    Binds.mark (by decide) ((items.binds _ _ hp rfl).before (by simp))
  | .arrow parameters beforeArrow behindArrow body, seen, rest, hp, hseen => by
    simp only [Lambda.toCode, Code.isProper, Bool.and_eq_true] at hp
    have hstart : parameters.text ≠ [] := ne_nil_of_startsOperand parameters.text_startsOperand
    have hmark : headIs isNameChar
        ((parameters.text ++ (beforeArrow.text ++ arrowMark)).reverse ++ seen) = false := by
      simp only [arrowMark, List.reverse_append, List.reverse_cons, List.reverse_nil]
      rfl
    have hall := (Binds.arrow parameters beforeArrow (behindArrow.text ++ body.toCode.render ++ rest)
      fun h => hseen ((headIs_append hstart _).trans h)).append <|
        Binds.behind (by simp) <| body.binds _ _ hp.1.1 fun _ => headIs_reverse_gap behindArrow hmark
    simpa [Lambda.toCode, Code.render, asyncText, Lambda.parameters] using hall

/-- The arrows of items bind their parameters. -/
theorem Lambdas.binds : ∀ (items : Lambdas) (seen rest : Text), items.toCodes.isProper →
    headIs isNameChar seen = false → Binds seen items.toCodes.render rest items.parameters
  | .none gap, _, _, _, _ => Binds.of_not_mem gap.equals_not_mem
  | .last first e last, seen, rest, hp, hseen => by
    simp only [Lambdas.toCodes, Codes.isProper, Bool.and_eq_true] at hp
    simp only [Lambdas.toCodes, Codes.render, Label.text, List.append_nil]
    exact (Binds.behind (by simp)
      (e.binds _ _ hp.1 fun _ => headIs_reverse_gap first hseen)).before (by simp)
  | .more first e last others, seen, rest, hp, hseen => by
    simp only [Lambdas.toCodes, Codes.isProper, Bool.and_eq_true] at hp
    simp only [Lambdas.toCodes, Codes.render, Label.text, List.append_nil]
    refine Binds.append (Binds.before (Binds.behind (by simp) ?_) (by simp)) ?_
    · exact e.binds _ _ hp.1.1 fun _ => headIs_reverse_gap first hseen
    · exact Binds.mark (by decide) (others.binds _ _ hp.2 rfl)

end

/-! ## What is written -/

section Written

variable {locals names : List Text} {e : Lambda}

/-- The names that are taken for parameters in an expression are those of its arrows, words of the
language aside. -/
theorem Lambda.mem_parameterNames? (he : e.toCode.isProper)
    (hwords : functionParameters e.text = []) (h : parameterNames? e.text = some names) {x : Text}
    (hx : isKeyword x = false) : x ∈ names ↔ x ∈ e.parameters := by
  obtain ⟨all, hall, rfl⟩ := Option.map_eq_some_iff.1 h
  rw [← List.append_nil e.text] at hall
  obtain ⟨here, later, rfl, hlater, hiff⟩ := e.binds [] [] he (fun _ => rfl) all hall
  obtain rfl := Option.some.inj hlater
  rw [hwords, List.nil_append, List.append_nil]
  exact hiff x hx

/-- A name is free alike where the names that are bound are the same, words of the language aside.
-/
theorem Name.isFree_congr {names' : List Text} (n : Name)
    (h : isKeyword n.text = false → (n.text ∈ names ↔ n.text ∈ names')) :
    n.isFree (names ++ locals) = n.isFree (names' ++ locals) := by
  rw [isFree_append, isFree_append]
  cases hkey : isKeyword n.text with
  | true => simp [isFree, hkey]
  | false => rw [Bool.eq_iff_iff]; simp [h hkey]

/-- Every part of an expression is written by itself, with all parameters of its arrows bound. -/
theorem prefixNames?_written (locals : List Text) (he : e.toCode.isProper) (hwords : functionParameters e.text = [])
    (hsplit : ¬SplitsName e.text) :
    prefixNames? locals e.text =
      some ((e.places []).flatMap (Place.written (e.parameters ++ locals))) := by
  obtain ⟨names, hnames⟩ : ∃ names, parameterNames? e.text = some names :=
    Option.ne_none_iff_exists'.1 fun h => hsplit (parameterNames?_eq_none_iff.1 h)
  have hfree : ∀ n : Name, n.isFree (names ++ locals) = n.isFree (e.parameters ++ locals) :=
    fun n => n.isFree_congr (Lambda.mem_parameterNames? he hwords hnames)
  have hbound : ∀ n : Name, n.text ∈ e.parameters → n.isFree (names ++ locals) = false := by
    intro n hn
    rw [hfree, Name.isFree_append]
    simp [hn]
  have hwrites := e.writes (names ++ locals) [] .start [] he hbound Context.ready_start.operand
    (by simp [Context.start]) (Ending.stops rfl)
  obtain ⟨ctx, -, -, heq⟩ := hwrites
  rw [List.append_nil, write_nil, List.append_nil] at heq
  have hsame : Place.written (names ++ locals) = Place.written (e.parameters ++ locals) := by
    funext place
    cases place with
    | name n bound => rw [Place.written, Place.written, hfree]
    | verbatim t => rfl
  rw [prefixNames?, hnames, ← hsame]
  exact congrArg some heq

mutual

/-- What is bound in a place is a parameter of the expression, or bound around it. -/
theorem Lambda.mem_of_mem_places : ∀ (e : Lambda) (bound : List Text) {n : Name}
    {inner : List Text}, Place.name n inner ∈ e.places bound →
      ∀ x ∈ inner, x ∈ e.parameters ∨ x ∈ bound
  | .name _, bound, _, _, h, x, hx => by
    simp only [Lambda.places, List.mem_singleton, Place.name.injEq] at h
    exact .inr (h.2 ▸ hx)
  | .number _, _, _, _, h, _, _ => by simp [Lambda.places] at h
  | .member base _ _ _ _, bound, _, _, h, x, hx => by
    simp only [Lambda.places, List.mem_append, List.mem_singleton, reduceCtorEq, or_false] at h
    exact base.mem_of_mem_places bound h x hx
  | .call callee _ arguments, bound, _, _, h, x, hx => by
    simp only [Lambda.places, List.mem_append, List.mem_cons, List.not_mem_nil, reduceCtorEq,
      or_false, false_or] at h
    rw [Lambda.parameters, List.mem_append]
    rcases h with h | h
    · exact (callee.mem_of_mem_places bound h x hx).imp_left .inl
    · exact (arguments.mem_of_mem_places bound h x hx).imp_left .inr
  | .group _ inner _, bound, _, _, h, x, hx => by
    simp only [Lambda.places, List.mem_append, List.mem_cons, List.not_mem_nil, reduceCtorEq,
      or_false, false_or] at h
    exact inner.mem_of_mem_places bound h x hx
  | .between left _ _ _ right, bound, _, _, h, x, hx => by
    simp only [Lambda.places, List.mem_append, List.mem_cons, reduceCtorEq, false_or] at h
    rw [Lambda.parameters, List.mem_append]
    rcases h with h | h
    · exact (left.mem_of_mem_places bound h x hx).imp_left .inl
    · exact (right.mem_of_mem_places bound h x hx).imp_left .inr
  | .conditional test _ _ yes _ _ no, bound, _, _, h, x, hx => by
    simp only [Lambda.places, List.mem_append, List.mem_cons, reduceCtorEq, false_or] at h
    rw [Lambda.parameters, List.mem_append, List.mem_append]
    rcases h with h | h | h
    · exact (test.mem_of_mem_places bound h x hx).imp_left fun h => .inl (.inl h)
    · exact (yes.mem_of_mem_places bound h x hx).imp_left fun h => .inl (.inr h)
    · exact (no.mem_of_mem_places bound h x hx).imp_left .inr
  | .array items, bound, _, _, h, x, hx => by
    simp only [Lambda.places, List.mem_append, List.mem_cons, List.not_mem_nil, reduceCtorEq,
      or_false, false_or] at h
    exact items.mem_of_mem_places bound h x hx
  | .arrow parameters _ _ body, bound, _, _, h, x, hx => by
    simp only [Lambda.places, List.mem_cons, reduceCtorEq, false_or] at h
    rw [Lambda.parameters, List.mem_append]
    -- in the body the parameters are bound too
    rcases body.mem_of_mem_places _ h x hx with hbody | houter
    · exact .inl (.inr hbody)
    · exact (List.mem_append.1 houter).imp_left .inl

theorem Lambdas.mem_of_mem_places : ∀ (items : Lambdas) (bound : List Text) {n : Name}
    {inner : List Text}, Place.name n inner ∈ items.places bound →
      ∀ x ∈ inner, x ∈ items.parameters ∨ x ∈ bound
  | .none _, _, _, _, h, _, _ => by simp [Lambdas.places] at h
  | .last _ e _, bound, _, _, h, x, hx => by
    simp only [Lambdas.places, List.mem_append, List.mem_cons, List.not_mem_nil, reduceCtorEq,
      or_false, false_or] at h
    exact e.mem_of_mem_places bound h x hx
  | .more _ e _ others, bound, _, _, h, x, hx => by
    simp only [Lambdas.places, List.mem_append, List.mem_cons, reduceCtorEq, false_or] at h
    rw [Lambdas.parameters, List.mem_append]
    rcases h with h | h
    · exact (e.mem_of_mem_places bound h x hx).imp_left .inl
    · exact (others.mem_of_mem_places bound h x hx).imp_left .inr

end

/-- Where all parameters are bound everywhere, no more is written than where each is bound in the
body of its arrow. -/
theorem Place.sublist_written (n : Name) {bound : List Text} (h : ∀ x ∈ bound, x ∈ names) :
    Sublist ((Place.name n bound).written (names ++ locals))
      ((Place.name n bound).lexical locals) := by
  rw [written, lexical, Name.isFree_append, Name.isFree_append]
  by_cases hmem : n.text ∈ names
  · simp only [List.contains_iff_mem.2 hmem, Bool.not_true, Bool.and_false, Bool.false_eq_true,
      if_false]
    split
    · exact List.sublist_append_right _ _
    · exact Sublist.refl _
  · have hbound : n.text ∉ bound := fun hin => hmem (h _ hin)
    simp [hmem, hbound]

/-- The parameters of arrows are bound in the whole expression. So each name in the place of an
operand is put into the context unless it is a word of the language, an allowed global, bound
outside, or a parameter of any of the arrows; and this is what the bodies of the arrows ask for
exactly if no parameter of an arrow is a name of the context outside of it. Nothing in the text is
to be taken for the parameters of another function, as is so where the word for one does not occur
in it, and the parameters of all arrows can be told. -/
theorem prefixNames?_places (locals : List Text) {e : Lambda} (he : e.toCode.isProper)
    (hwords : functionParameters e.text = []) (hsplit : ¬SplitsName e.text) :
    e.text = (e.places []).flatMap Place.text ∧
      prefixNames? locals e.text =
        some ((e.places []).flatMap (Place.written (e.parameters ++ locals))) ∧
      (prefixNames? locals e.text = some ((e.places []).flatMap (Place.lexical locals)) ↔
        ∀ n bound, Place.name n bound ∈ e.places [] → n.isFree (bound ++ locals) →
          n.text ∉ e.parameters) := by
  have hwritten := prefixNames?_written locals he hwords hsplit
  have hbound : ∀ n bound, Place.name n bound ∈ e.places [] → ∀ x ∈ bound, x ∈ e.parameters :=
    fun n bound h x hx => (e.mem_of_mem_places [] h x hx).resolve_right List.not_mem_nil
  refine ⟨(e.flatMap_text_places []).symm, hwritten, ?_⟩
  rw [hwritten, Option.some.injEq]
  constructor
  · intro heq n bound h hfree hmem
    have hsub : ∀ place ∈ e.places [], Sublist (place.written (e.parameters ++ locals))
        (place.lexical locals) := by
      intro place hplace
      cases place with
      | name n bound => exact Place.sublist_written n (hbound n bound hplace)
      | verbatim t => exact Sublist.refl _
    have hsame := eq_of_flatMap_eq hsub heq _ h
    rw [Place.written, Place.lexical, Name.isFree_append, if_pos hfree,
      if_neg (by simp [hmem])] at hsame
    have hlength := congrArg List.length hsame
    simp at hlength
    omega
  · intro h
    refine List.flatMap_congr fun place hplace => ?_
    cases place with
    | verbatim t => rfl
    | name n bound =>
      have hfree : n.isFree (e.parameters ++ locals) = n.isFree (bound ++ locals) := by
        cases hinner : n.isFree (bound ++ locals) with
        | true =>
          have hout := h n bound hplace hinner
          rw [Name.isFree_append, Bool.and_eq_true] at hinner
          simp [Name.isFree_append, hinner.1, hout]
        | false =>
          rw [Name.isFree_append, Bool.and_eq_false_iff] at hinner ⊢
          refine hinner.imp_right fun hin => ?_
          have hmem : n.text ∈ bound := by simpa using hin
          simpa using hbound n bound hplace _ hmem
      rw [Place.written, Place.lexical, hfree]

/-- A call with an arrow inside of an arrow, beside a name that none of them binds. -/
def nestedArrows : Lambda :=
  let entry : Name := .mk "entry".toList
  let key : Name := .mk "key".toList
  let other : Name := .mk "other".toList
  let inner := Lambda.arrow (.listed (.more .none key .none (.last .space other .none)))
    .space .space (.between (.name entry) .space (.mk "<=".toList) .space (.name key))
  let outer := Lambda.arrow (.lone entry) .space .space <| .array <|
    .more .none (.member (.name entry) .none false .none other) .none <| .last .space inner .none
  let choice := Lambda.conditional (.name (.mk "wide".toList)) .space .space
    (.name (.mk "columns".toList)) .space .space (.number (.mk "2".toList none none))
  .call (.name (.mk "rank".toList)) .none (.more .none outer .none (.last .space choice .none))

theorem prefixNames?_places_nestedArrows :
    let text := "rank(entry => [entry.other, (key, other) => entry <= key], wide ? columns : 2)".toList
    nestedArrows.toCode.isProper ∧ nestedArrows.text = text ∧ functionParameters text = [] ∧
      ¬SplitsName text ∧ prefixNames? ["wide".toList] text =
        some ("_ctx.rank(entry => [entry.other, (key, other) => entry <= key], " ++
          "wide ? _ctx.columns : 2)").toList := by
  intro text
  have hproper : nestedArrows.toCode.isProper := by decide +kernel
  have htext : nestedArrows.text = text := by decide +kernel
  have hwords : functionParameters text = [] := functionParameters_of_no_word (by decide +kernel)
  have hsplit : ¬SplitsName text := fun h =>
    absurd (parameterNames?_eq_none_iff.2 h) (by decide +kernel)
  refine ⟨hproper, htext, hwords, hsplit, ?_⟩
  rw [← htext] at hwords hsplit ⊢
  obtain ⟨-, hwritten, -⟩ := prefixNames?_places ["wide".toList] hproper hwords hsplit
  exact hwritten.trans (by decide +kernel)

/-- A parameter of an arrow that is a name of the context behind it. -/
def leakedParameter (n : Name) : Lambda :=
  .array <| .more .none (.arrow (.lone n) .space .space (.name n)) .none <|
    .last .space (.name n) .none

/-- Parameters of arrows are not bound in the bodies of their arrows alone: behind the arrow the
name is one of the context, and is left as it is. -/
theorem prefixNames?_leakedParameter :
    let e := leakedParameter (.mk "x".toList)
    e.toCode.isProper ∧ e.text = "[x => x, x]".toList ∧
      (e.places []).flatMap (Place.lexical []) = "[x => x, _ctx.x]".toList ∧
      prefixNames? [] e.text = some "[x => x, x]".toList := by
  decide +kernel

end Written

end ModuleServer.Expression
