import ModuleServer.Proofs.Expression.Function
import ModuleServer.Proofs.Expression.Place

/-!
# How expressions start and end

What can be told of the text of an expression with functions by its first and its last characters,
and by the round brackets in it.

* `Code.render_startsOperand`, `Code.trim_render`: no white space is on either side, and nothing
  that goes on from an equals sign stands in front.
* `Code.nested_render`: round brackets come in pairs, as long as no string and no template text has
  one.
-/

namespace ModuleServer.Expression

open Text

/-! ## First and last characters -/

/-- Whether a text starts as an operand does: with a character that is not white and neither goes on
from an equals sign nor ends an arrow, and with a digit behind it if it is a dot. -/
def startsOperand : Text → Bool
  | [] => false
  | c :: t => !isWhite c && c ≠ '=' && c ≠ '>' && (c ≠ '.' || headIs Char.isDigit t)

/-- Whether a text ends with a character that is not white. -/
def endsVisible (t : Text) : Bool :=
  headIs (fun c => !isWhite c) t.reverse

section Ends

variable {t u : Text}

theorem startsOperand_append (h : startsOperand t) (u : Text) : startsOperand (t ++ u) := by
  match t with
  | [] => cases h
  | [c] => simp_all [startsOperand, headIs]
  | c :: d :: t => exact h

theorem endsVisible_append (t : Text) (h : endsVisible u) : endsVisible (t ++ u) := by
  have hne : u.reverse ≠ [] := by
    intro hnil
    rw [endsVisible, hnil] at h
    cases h
  rw [endsVisible, List.reverse_append, headIs_append hne]
  exact h

theorem endsVisible_cons (c : Char) (h : endsVisible t) : endsVisible (c :: t) :=
  endsVisible_append [c] h

theorem ne_nil_of_startsOperand (h : startsOperand t) : t ≠ [] := by
  rintro rfl
  cases h

theorem headIs_isWhite_of_startsOperand (h : startsOperand t) : headIs isWhite t = false := by
  cases t with
  | nil => rfl
  | cons c t =>
    simp only [startsOperand, Bool.and_eq_true, Bool.not_eq_true'] at h
    exact h.1.1.1

theorem headIs_isWhite_of_endsVisible (h : endsVisible t) : headIs isWhite t.reverse = false := by
  rw [endsVisible] at h
  cases hreverse : t.reverse with
  | nil => rfl
  | cons c r =>
    rw [hreverse] at h
    simpa [headIs] using h

end Ends

/-- A class of visible characters has the last of a text that is made of them. -/
theorem endsVisible_of_all {p : Char → Bool} (hp : ∀ c, p c → isWhite c = false) {t : Text}
    (hne : t ≠ []) (h : t.all p) : endsVisible t := by
  obtain ⟨t, c, rfl⟩ := (List.eq_nil_or_concat t).resolve_left hne
  have hc : p c := List.all_eq_true.1 h c (by simp)
  simp [endsVisible, headIs, hp c hc]

theorem Name.text_startsOperand (n : Name) : startsOperand n.text := by
  cases htext : n.text with
  | nil => exact absurd htext n.text_ne_nil
  | cons c t =>
    have hmem : c ∈ n.text := htext ▸ List.mem_cons_self
    have hc : isNameChar c := List.all_eq_true.1 (all_isNameChar n) c hmem
    simp [startsOperand, isWhite_of_isNameChar hc, ne_of_mem_name (d := '=') hmem (by decide),
      ne_of_mem_name (d := '>') hmem (by decide), ne_of_mem_name (d := '.') hmem (by decide)]

theorem Name.text_endsVisible (n : Name) : endsVisible n.text :=
  endsVisible_of_all (fun _ => isWhite_of_isNameChar) n.text_ne_nil (all_isNameChar n)

/-- A number starts with a digit, or with a dot and a digit. -/
theorem Number.text_cases (n : Number) :
    (∃ c t, n.text = c :: t ∧ c.isDigit) ∨ ∃ c t, n.text = '.' :: c :: t ∧ c.isDigit := by
  have hdigits := n.digits
  have hsome := n.someDigit
  unfold Number.text
  cases hwhole : n.whole with
  | cons c w =>
    simp only [hwhole, List.cons_append, List.all_cons, Bool.and_eq_true] at hdigits
    exact .inl ⟨c, _, rfl, hdigits.1⟩
  | nil =>
    rcases hfraction : n.fraction with _ | _ | ⟨c, f⟩
    · simp [hwhole, hfraction] at hsome
    · simp [hwhole, hfraction] at hsome
    · simp only [hwhole, hfraction, Option.getD_some, List.nil_append, List.all_cons,
        Bool.and_eq_true] at hdigits
      exact .inr ⟨c, _, rfl, hdigits.1⟩

/-- A digit is none of the characters that are no part of a name. -/
theorem ne_of_isDigit {c d : Char} (hc : c.isDigit) (hd : isNameChar d = false) : c ≠ d :=
  ne_of_class (classes_of_digit hc).2.1 hd

theorem Number.text_startsOperand (n : Number) : startsOperand n.text := by
  rcases n.text_cases with ⟨c, t, htext, hc⟩ | ⟨c, t, htext, hc⟩
  · simp [htext, startsOperand, isWhite_of_isNameChar (classes_of_digit hc).2.1,
      ne_of_isDigit (d := '=') hc (by decide), ne_of_isDigit (d := '>') hc (by decide),
      ne_of_isDigit (d := '.') hc (by decide)]
  · have hdot : isWhite '.' = false := by decide
    simp [htext, startsOperand, headIs, hc, hdot]

theorem Number.text_endsVisible (n : Number) : endsVisible n.text := by
  refine endsVisible_of_all (fun c hc => ?_) n.text_ne_nil n.all_chars
  refine Bool.eq_false_iff.2 fun hwhite => ?_
  simp [isNumberChar_of_white hwhite] at hc
  rcases hc with rfl | rfl <;> exact absurd hwhite (by decide)

theorem Quoted.text_startsOperand (s : Quoted) : startsOperand s.text := by
  rcases s.isQuote with h | h <;> simp [Quoted.text, startsOperand, h] <;> decide

theorem Quoted.text_endsVisible (s : Quoted) : endsVisible s.text := by
  refine endsVisible_cons _ (endsVisible_append _ ?_)
  rcases s.isQuote with h | h <;> rw [h] <;> decide

theorem Operator.text_startsOperand (op : Operator prefixMarks prefixWords) :
    startsOperand op.text := by
  have hall : ∀ t ∈ prefixMarks ++ prefixWords, startsOperand t := by decide
  exact hall _ op.known

theorem Operator.text_endsVisible (op : Operator postfixMarks []) : endsVisible op.text := by
  have hall : ∀ t ∈ postfixMarks ++ [], endsVisible t := by decide
  exact hall _ op.known

theorem Parameters.text_startsOperand (parameters : Parameters) :
    startsOperand parameters.text := by
  cases parameters with
  | lone n => exact n.text_startsOperand
  | listed names => rfl

/-- The text of an expression starts as an operand does. -/
theorem Code.render_startsOperand : ∀ e : Code, startsOperand e.render
  | .name n => n.text_startsOperand
  | .number n => n.text_startsOperand
  | .string s => s.text_startsOperand
  | .template _ _ => rfl
  | .member base _ _ _ _ => startsOperand_append base.render_startsOperand _
  | .index base _ _ _ _ => startsOperand_append base.render_startsOperand _
  | .call callee _ _ => startsOperand_append callee.render_startsOperand _
  | .group _ _ _ => rfl
  | .before op _ _ => startsOperand_append op.text_startsOperand _
  | .behind operand _ _ => startsOperand_append operand.render_startsOperand _
  | .between left _ _ _ _ => startsOperand_append left.render_startsOperand _
  | .conditional test _ _ _ _ _ _ => startsOperand_append test.render_startsOperand _
  | .array _ => rfl
  | .object _ => rfl
  | .arrow none parameters _ _ _ => startsOperand_append parameters.text_startsOperand _
  | .arrow (some _) _ _ _ _ => rfl
  | .function _ _ _ _ _ _ => rfl

/-- The text of an expression ends with a character that is not white. -/
theorem Code.render_endsVisible : ∀ e : Code, endsVisible e.render
  | .name n => n.text_endsVisible
  | .number n => n.text_endsVisible
  | .string s => s.text_endsVisible
  | .template _ _ => endsVisible_cons _ (endsVisible_append _ rfl)
  | .member _ _ _ _ n =>
    endsVisible_append _ (endsVisible_append _ (endsVisible_append _ n.text_endsVisible))
  | .index _ _ _ _ _ =>
    endsVisible_append _ (endsVisible_append _ (endsVisible_cons _ (endsVisible_append _ rfl)))
  | .call _ _ _ =>
    endsVisible_append _ (endsVisible_append _ (endsVisible_cons _ (endsVisible_append _ rfl)))
  | .group _ _ _ => endsVisible_cons _ (endsVisible_append _ rfl)
  | .before _ _ operand =>
    endsVisible_append _ (endsVisible_append _ operand.render_endsVisible)
  | .behind _ _ op => endsVisible_append _ (endsVisible_append _ op.text_endsVisible)
  | .between _ _ _ _ right =>
    endsVisible_append _ (endsVisible_append _ (endsVisible_append _
      (endsVisible_append _ right.render_endsVisible)))
  | .conditional _ _ _ _ _ _ no =>
    endsVisible_append _ (endsVisible_append _ (endsVisible_cons _ (endsVisible_append _
      (endsVisible_cons _ (endsVisible_append _ no.render_endsVisible)))))
  | .array _ => endsVisible_cons _ (endsVisible_append _ rfl)
  | .object _ => endsVisible_cons _ (endsVisible_append _ rfl)
  | .arrow _ _ _ _ body =>
    endsVisible_append _ (endsVisible_append _ (endsVisible_append _ (endsVisible_append _
      (endsVisible_append _ body.render_endsVisible))))
  | .function _ _ _ _ _ _ =>
    endsVisible_append _ (endsVisible_append _ (endsVisible_cons _ (endsVisible_append _
      (endsVisible_cons _ (endsVisible_append _ (endsVisible_cons _ (endsVisible_append _ rfl)))))))

/-- White space around an expression is all that trimming takes away. -/
theorem Code.trim_render (first last : Gap) (e : Code) :
    trim (first.text ++ e.render ++ last.text) = e.render :=
  trim_padded first.white last.white (headIs_isWhite_of_startsOperand e.render_startsOperand)
    (headIs_isWhite_of_endsVisible e.render_endsVisible)

/-! ## Round brackets -/

/-- Counting round brackets goes through a text and comes out at the depth it came in with. -/
def Nested (t : Text) : Prop :=
  ∀ depth rest, closeGroup? '(' ')' depth (t ++ rest) =
    (closeGroup? '(' ')' depth rest).map fun (inner, behind) => (t ++ inner, behind)

namespace Nested

variable {t u : Text}

theorem append (ht : Nested t) (hu : Nested u) : Nested (t ++ u) := by
  intro depth rest
  rw [List.append_assoc, ht, hu, Option.map_map]
  refine congrArg (fun f => (closeGroup? '(' ')' depth rest).map f) (funext fun _ => ?_)
  simp

theorem mark {c : Char} (hopen : c ≠ '(') (hclose : c ≠ ')') : Nested [c] := by
  intro depth rest
  simp only [List.singleton_append, closeGroup?, if_neg hopen, if_neg hclose]

theorem cons {c : Char} (hopen : c ≠ '(') (hclose : c ≠ ')') (ht : Nested t) : Nested (c :: t) :=
  (mark hopen hclose).append ht

theorem nil : Nested [] := by
  intro depth rest
  simp

theorem of_no_bracket (h : ∀ c ∈ t, c ≠ '(' ∧ c ≠ ')') : Nested t := by
  induction t with
  | nil => exact nil
  | cons c t ih =>
    obtain ⟨hc, ht⟩ := List.forall_mem_cons.1 h
    exact cons hc.1 hc.2 (ih ht)

theorem of_class {p : Char → Bool} (hopen : p '(' = false) (hclose : p ')' = false)
    (h : t.all p) : Nested t :=
  of_no_bracket fun c hc => ⟨ne_of_mem_run h hopen c hc, ne_of_mem_run h hclose c hc⟩

theorem of_free (h : t.all fun c => c ≠ '(' && c ≠ ')') : Nested t :=
  of_class (by decide) (by decide) h

theorem enclosed (h : Nested t) : Nested ('(' :: (t ++ [')'])) := by
  intro depth rest
  have hopen : ('(' : Char) ≠ ')' := by decide
  simp only [List.cons_append, closeGroup?, if_neg hopen, if_true, List.append_assoc,
    List.nil_append]
  rw [h]
  simp only [closeGroup?, if_true, Option.map_map]
  rfl

/-- A group of nested brackets is read to its end. -/
theorem groupAfter? (h : Nested t) (rest : Text) :
    Expression.groupAfter? (t ++ ')' :: rest) = some (t, rest) := by
  rw [Expression.groupAfter?, h]
  simp [closeGroup?]

end Nested

/-- Whether there is a round bracket among glyphs. -/
def hasRound (glyphs : List Glyph) : Bool :=
  glyphs.any fun g => g.char = '(' || g.char = ')'

/-- Whether the key of an item has no round bracket. -/
def Label.isRoundFree : Label → Bool
  | quoted s _ _ => !hasRound s.glyphs
  | _ => true

mutual

/-- Whether no string and no template text in an expression has a round bracket. -/
def Code.isRoundFree : Code → Bool
  | .name _ => true
  | .number _ => true
  | .string s => !hasRound s.glyphs
  | .template text holes => !hasRound text.glyphs && holes.isRoundFree
  | .member base _ _ _ _ => base.isRoundFree
  | .index base _ _ key _ => base.isRoundFree && key.isRoundFree
  | .call callee _ arguments => callee.isRoundFree && arguments.isRoundFree
  | .group _ inner _ => inner.isRoundFree
  | .before _ _ operand => operand.isRoundFree
  | .behind operand _ _ => operand.isRoundFree
  | .between left _ _ _ right => left.isRoundFree && right.isRoundFree
  | .conditional test _ _ yes _ _ no => test.isRoundFree && yes.isRoundFree && no.isRoundFree
  | .array items => items.isRoundFree
  | .object entries => entries.isRoundFree
  | .arrow _ _ _ _ body => body.isRoundFree
  | .function _ _ _ _ body _ => body.isRoundFree

/-- Whether no string and no template text in items has a round bracket. -/
def Codes.isRoundFree : Codes → Bool
  | .none _ => true
  | .last _ label e _ => label.isRoundFree && e.isRoundFree
  | .more _ label e _ others => label.isRoundFree && e.isRoundFree && others.isRoundFree

/-- Whether no string and no template text in holes has a round bracket. -/
def CodeHoles.isRoundFree : CodeHoles → Bool
  | .none => true
  | .more _ e _ text others => e.isRoundFree && !hasRound text.glyphs && others.isRoundFree

end

theorem Gap.nested (gap : Gap) : Nested gap.text :=
  .of_class (by decide) (by decide) gap.white

theorem Name.nested (n : Name) : Nested n.text :=
  .of_class (by decide) (by decide) (all_isNameChar n)

theorem Number.nested (n : Number) : Nested n.text :=
  .of_class (by decide) (by decide) n.all_chars

theorem nested_glyphs {glyphs : List Glyph} (h : hasRound glyphs = false) :
    Nested (glyphs.flatMap Glyph.text) := by
  simp only [hasRound, List.any_eq_false, Bool.or_eq_true, decide_eq_true_eq, not_or] at h
  refine .of_no_bracket fun c hc => ?_
  rcases mem_glyphs hc with rfl | ⟨g, hg, rfl⟩
  · decide
  · exact h g hg

theorem Quoted.nested {s : Quoted} (h : hasRound s.glyphs = false) : Nested s.text := by
  have hquote : Nested [s.quote] := by
    rcases s.isQuote with h | h <;> rw [h] <;> exact .mark (by decide) (by decide)
  exact hquote.append ((nested_glyphs h).append hquote)

theorem Operator.nested {marks words : List Text} (op : Operator marks words)
    (h : (marks ++ words).all fun t => t.all fun c => c ≠ '(' && c ≠ ')') : Nested op.text := by
  refine .of_no_bracket fun c hc => ?_
  simpa using List.all_eq_true.1 (List.all_eq_true.1 h op.text op.known) c hc

theorem nested_memberMark (optional : Bool) : Nested (memberMark optional) := by
  cases optional <;> exact .of_free (by decide)

/-- A list of names is made of white space, names and commas. -/
theorem Names.all_text (names : Names) :
    names.text.all fun c => isWhite c || isNameChar c || c = ',' := by
  have hgap : ∀ gap : Gap, gap.text.all fun c => isWhite c || isNameChar c || c = ',' := by
    refine fun gap => List.all_eq_true.2 fun c hc => ?_
    simp [List.all_eq_true.1 gap.white c hc]
  have hname : ∀ n : Name, n.text.all fun c => isWhite c || isNameChar c || c = ',' := by
    refine fun n => List.all_eq_true.2 fun c hc => ?_
    simp [List.all_eq_true.1 (all_isNameChar n) c hc]
  induction names with
  | none gap => exact hgap gap
  | last first n behind => simp only [text, List.all_append, hgap, hname, Bool.and_self]
  | more first n behind others ih =>
    simp only [text, List.all_append, List.all_cons, hgap, hname, ih, decide_true, Bool.or_true,
      Bool.and_self]

theorem Names.nested (names : Names) : Nested names.text :=
  .of_class (by decide) (by decide) names.all_text

theorem Parameters.nested (parameters : Parameters) : Nested parameters.text := by
  cases parameters with
  | lone n => exact n.nested
  | listed names => exact names.nested.enclosed

theorem nested_asyncText (async : Option Gap) : Nested (asyncText async) := by
  cases async with
  | none => exact .nil
  | some gap => exact Nested.append (.of_free (by decide)) gap.nested

theorem Label.nested {label : Label} (h : label.isRoundFree) : Nested label.text := by
  cases label with
  | none => exact .nil
  | spread => exact .of_free (by decide)
  | key n beforeColon behindColon =>
    exact (n.nested.append beforeColon.nested).append
      (.cons (by decide) (by decide) behindColon.nested)
  | quoted s beforeColon behindColon =>
    have hs : hasRound s.glyphs = false := by simpa [isRoundFree] using h
    exact ((Quoted.nested hs).append beforeColon.nested).append
      (.cons (by decide) (by decide) behindColon.nested)

mutual

/-- The round brackets in the text of an expression come in pairs. -/
theorem Code.nested_render : ∀ e : Code, e.isRoundFree → Nested e.render
  | .name n, _ => n.nested
  | .number n, _ => n.nested
  | .string s, h => Quoted.nested (by simpa [Code.isRoundFree] using h)
  | .template text holes, h => by
    simp only [Code.isRoundFree, Bool.and_eq_true, Bool.not_eq_true'] at h
    exact .cons (by decide) (by decide) <|
      ((nested_glyphs h.1).append (holes.nested_render h.2)).append
        (.mark (by decide) (by decide))
  | .member base beforeDot optional behindDot n, h =>
    (base.nested_render h).append (beforeDot.nested.append
      (((nested_memberMark optional).append behindDot.nested).append n.nested))
  | .index base beforeBracket first key last, h => by
    simp only [Code.isRoundFree, Bool.and_eq_true] at h
    have hkey := (first.nested.append (key.nested_render h.2)).append last.nested
    exact (base.nested_render h.1).append (beforeBracket.nested.append
      (.cons (by decide) (by decide) (hkey.append (.mark (by decide) (by decide)))))
  | .call callee beforeBracket arguments, h => by
    simp only [Code.isRoundFree, Bool.and_eq_true] at h
    exact (callee.nested_render h.1).append
      (beforeBracket.nested.append (arguments.nested_render h.2).enclosed)
  | .group first inner last, h =>
    ((first.nested.append (inner.nested_render h)).append last.nested).enclosed
  | .before op gap operand, h =>
    (op.nested (by decide)).append (gap.nested.append (operand.nested_render h))
  | .behind operand gap op, h =>
    (operand.nested_render h).append (gap.nested.append (op.nested (by decide)))
  | .between left beforeOp op behindOp right, h => by
    simp only [Code.isRoundFree, Bool.and_eq_true] at h
    exact (left.nested_render h.1).append (beforeOp.nested.append ((op.nested (by decide)).append
      (behindOp.nested.append (right.nested_render h.2))))
  | .conditional test beforeMark behindMark yes beforeColon behindColon no, h => by
    simp only [Code.isRoundFree, Bool.and_eq_true] at h
    have hno : Nested (':' :: (behindColon.text ++ no.render)) :=
      .cons (by decide) (by decide) (behindColon.nested.append (no.nested_render h.2))
    have hyes := ((behindMark.nested.append (yes.nested_render h.1.2)).append
      beforeColon.nested).append hno
    exact (test.nested_render h.1.1).append (beforeMark.nested.append
      (.cons (by decide) (by decide) hyes))
  | .array items, h =>
    .cons (by decide) (by decide) ((items.nested_render h).append (.mark (by decide) (by decide)))
  | .object entries, h =>
    .cons (by decide) (by decide) ((entries.nested_render h).append (.mark (by decide) (by decide)))
  | .arrow async parameters beforeArrow behindArrow body, h =>
    (nested_asyncText async).append (parameters.nested.append (beforeArrow.nested.append
      ((Nested.of_free (by decide)).append
        (behindArrow.nested.append (body.nested_render h)))))
  | .function beforeBracket parameters beforeBrace first body last, h => by
    have hbody := (first.nested.append (body.nested_render h)).append last.nested
    have hbraces : Nested ('{' :: (first.text ++ body.render ++ last.text ++ ['}'])) :=
      .cons (by decide) (by decide) (hbody.append (.mark (by decide) (by decide)))
    have hparameters := parameters.nested.enclosed.append (beforeBrace.nested.append hbraces)
    have hword : Nested functionWord := .of_free (by decide)
    simpa [Code.render] using hword.append (beforeBracket.nested.append hparameters)

/-- The round brackets in the text of items come in pairs. -/
theorem Codes.nested_render : ∀ items : Codes, items.isRoundFree → Nested items.render
  | .none gap, _ => gap.nested
  | .last first label e last, h => by
    simp only [Codes.isRoundFree, Bool.and_eq_true] at h
    exact ((first.nested.append (Label.nested h.1)).append (e.nested_render h.2)).append last.nested
  | .more first label e last others, h => by
    simp only [Codes.isRoundFree, Bool.and_eq_true] at h
    have hitem := ((first.nested.append (Label.nested h.1.1)).append
      (e.nested_render h.1.2)).append last.nested
    exact hitem.append (.cons (by decide) (by decide) (others.nested_render h.2))

/-- The round brackets in the text of holes come in pairs. -/
theorem CodeHoles.nested_render : ∀ holes : CodeHoles, holes.isRoundFree → Nested holes.render
  | .none, _ => .nil
  | .more first e last text others, h => by
    simp only [CodeHoles.isRoundFree, Bool.and_eq_true, Bool.not_eq_true'] at h
    have htext : Nested text.text := nested_glyphs h.1.2
    have hinner := (first.nested.append (e.nested_render h.1.1)).append last.nested
    exact .cons (by decide) (by decide) (.cons (by decide) (by decide) (hinner.append
      (.cons (by decide) (by decide) (htext.append (others.nested_render h.2)))))

end

end ModuleServer.Expression
