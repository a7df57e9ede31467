import ModuleServer.Proofs.Expression.Ends
import ModuleServer.Proofs.Expression.Stretch

/-!
# Expressions of arrows

Expressions in which arrows with plain parameters are the only functions, and names are bound by
nothing else. Their text and how their tokens meet is that of the same expression among all
expressions with functions (`Lambda.toCode`).

* `Lambda.places` cuts the text into names in the place of an operand, each with the parameters of
  the arrows around it, and text that is copied.
* `Place.written` is what is written when the same names are bound everywhere, `Place.lexical` what
  is written when the parameters of an arrow are bound in its body.
* `Lambda.writes`: with all parameters among the names that are bound, the scan writes each place by
  itself.
-/

namespace ModuleServer.Expression

open Text

/-! ## Trees -/

mutual

/-- An expression of arrows. -/
inductive Lambda where
  /-- A name. -/
  | name (n : Name)
  /-- A number. -/
  | number (n : Number)
  /-- A member of a value, read as nothing from nothing if `optional`. -/
  | member (base : Lambda) (beforeDot : Gap) (optional : Bool) (behindDot : Gap) (n : Name)
  /-- A call. -/
  | call (callee : Lambda) (beforeBracket : Gap) (arguments : Lambdas)
  /-- An expression in brackets. -/
  | group (first : Gap) (inner : Lambda) (last : Gap)
  /-- An operator between its operands. -/
  | between (left : Lambda) (beforeOp : Gap) (op : Operator binaryMarks binaryWords)
      (behindOp : Gap) (right : Lambda)
  /-- One of two expressions, as a test says. -/
  | conditional (test : Lambda) (beforeMark behindMark : Gap) (yes : Lambda)
      (beforeColon behindColon : Gap) (no : Lambda)
  /-- An array. -/
  | array (items : Lambdas)
  /-- An arrow. -/
  | arrow (parameters : Parameters) (beforeArrow behindArrow : Gap) (body : Lambda)

/-- Items of an array or a call, with commas between them; a comma behind the last is followed by no
item. -/
inductive Lambdas where
  /-- No item. -/
  | none (gap : Gap)
  /-- The last item. -/
  | last (first : Gap) (e : Lambda) (last : Gap)
  /-- An item and a comma. -/
  | more (first : Gap) (e : Lambda) (last : Gap) (others : Lambdas)

end

mutual

/-- The same expression among those with functions of any kind. -/
def Lambda.toCode : Lambda → Code
  | .name n => .name n
  | .number n => .number n
  | .member base beforeDot optional behindDot n =>
    .member base.toCode beforeDot optional behindDot n
  | .call callee beforeBracket arguments => .call callee.toCode beforeBracket arguments.toCodes
  | .group first inner last => .group first inner.toCode last
  | .between left beforeOp op behindOp right =>
    .between left.toCode beforeOp op behindOp right.toCode
  | .conditional test beforeMark behindMark yes beforeColon behindColon no =>
    .conditional test.toCode beforeMark behindMark yes.toCode beforeColon behindColon no.toCode
  | .array items => .array items.toCodes
  | .arrow parameters beforeArrow behindArrow body =>
    .arrow none parameters beforeArrow behindArrow body.toCode

/-- The same items among those with functions of any kind. -/
def Lambdas.toCodes : Lambdas → Codes
  | .none gap => .none gap
  | .last first e last => .last first .none e.toCode last
  | .more first e last others => .more first .none e.toCode last others.toCodes

end

/-- The text of an expression. -/
def Lambda.text (e : Lambda) : Text :=
  e.toCode.render

mutual

/-- The parameters of all arrows in an expression. -/
def Lambda.parameters : Lambda → List Text
  | .name _ => []
  | .number _ => []
  | .member base _ _ _ _ => base.parameters
  | .call callee _ arguments => callee.parameters ++ arguments.parameters
  | .group _ inner _ => inner.parameters
  | .between left _ _ _ right => left.parameters ++ right.parameters
  | .conditional test _ _ yes _ _ no => test.parameters ++ yes.parameters ++ no.parameters
  | .array items => items.parameters
  | .arrow parameters _ _ body => parameters.toList.map Name.text ++ body.parameters

/-- The parameters of all arrows in items. -/
def Lambdas.parameters : Lambdas → List Text
  | .none _ => []
  | .last _ e _ => e.parameters
  | .more _ e _ others => e.parameters ++ others.parameters

end

/-! ## Places of names -/

/-- A part of the text of an expression. -/
inductive Place where
  /-- A name in the place of an operand, and the parameters of the arrows whose bodies it is in. -/
  | name (n : Name) (bound : List Text)
  /-- Anything else, parameters among it. -/
  | verbatim (t : Text)

namespace Place

/-- The text of a part. -/
def text : Place → Text
  | name n _ => n.text
  | verbatim t => t

/-- The part with its name in the context, unless it is among those that are bound everywhere. -/
def written (names : List Text) : Place → Text
  | name n _ => if n.isFree names then "_ctx.".toList ++ n.text else n.text
  | verbatim t => t

/-- The part with its name in the context, unless an arrow around it binds the name. -/
def lexical (locals : List Text) : Place → Text
  | name n bound => if n.isFree (bound ++ locals) then "_ctx.".toList ++ n.text else n.text
  | verbatim t => t

end Place

mutual

/-- The parts of an expression in the bodies of arrows with the parameters `bound`. -/
def Lambda.places (bound : List Text) : Lambda → List Place
  | .name n => [.name n bound]
  | .number n => [.verbatim n.text]
  | .member base beforeDot optional behindDot n =>
    base.places bound ++
      [.verbatim (beforeDot.text ++ (memberMark optional ++ (behindDot.text ++ n.text)))]
  | .call callee beforeBracket arguments =>
    callee.places bound ++ .verbatim (beforeBracket.text ++ ['(']) ::
      (arguments.places bound ++ [.verbatim [')']])
  | .group first inner last =>
    .verbatim ('(' :: first.text) :: (inner.places bound ++ [.verbatim (last.text ++ [')'])])
  | .between left beforeOp op behindOp right =>
    left.places bound ++ .verbatim (beforeOp.text ++ (op.text ++ behindOp.text)) ::
      right.places bound
  | .conditional test beforeMark behindMark yes beforeColon behindColon no =>
    test.places bound ++ .verbatim (beforeMark.text ++ '?' :: behindMark.text) ::
      (yes.places bound ++ .verbatim (beforeColon.text ++ ':' :: behindColon.text) ::
        no.places bound)
  | .array items => .verbatim ['['] :: (items.places bound ++ [.verbatim [']']])
  | .arrow parameters beforeArrow behindArrow body =>
    .verbatim (parameters.text ++ (beforeArrow.text ++ (arrowMark ++ behindArrow.text))) ::
      body.places (parameters.toList.map Name.text ++ bound)

/-- The parts of items in the bodies of arrows with the parameters `bound`. -/
def Lambdas.places (bound : List Text) : Lambdas → List Place
  | .none gap => [.verbatim gap.text]
  | .last first e last => .verbatim first.text :: (e.places bound ++ [.verbatim last.text])
  | .more first e last others =>
    .verbatim first.text :: (e.places bound ++ .verbatim (last.text ++ [',']) ::
      others.places bound)

end

mutual

/-- The text of an expression is that of its parts. -/
theorem Lambda.flatMap_text_places : ∀ (e : Lambda) (bound : List Text),
    (e.places bound).flatMap Place.text = e.toCode.render
  | .name _, _ => by simp [Lambda.places, Lambda.toCode, Code.render, Place.text]
  | .number _, _ => by simp [Lambda.places, Lambda.toCode, Code.render, Place.text]
  | .member base _ _ _ _, bound => by
    simp [Lambda.places, Lambda.toCode, Code.render, Place.text, base.flatMap_text_places bound]
  | .call callee _ arguments, bound => by
    simp [Lambda.places, Lambda.toCode, Code.render, Place.text, callee.flatMap_text_places bound,
      arguments.flatMap_text_places bound]
  | .group _ inner _, bound => by
    simp [Lambda.places, Lambda.toCode, Code.render, Place.text, inner.flatMap_text_places bound]
  | .between left _ _ _ right, bound => by
    simp [Lambda.places, Lambda.toCode, Code.render, Place.text, left.flatMap_text_places bound,
      right.flatMap_text_places bound]
  | .conditional test _ _ yes _ _ no, bound => by
    simp [Lambda.places, Lambda.toCode, Code.render, Place.text, test.flatMap_text_places bound,
      yes.flatMap_text_places bound, no.flatMap_text_places bound]
  | .array items, bound => by
    simp [Lambda.places, Lambda.toCode, Code.render, Place.text, items.flatMap_text_places bound]
  | .arrow parameters _ _ body, bound => by
    simp [Lambda.places, Lambda.toCode, Code.render, Place.text, asyncText,
      body.flatMap_text_places (parameters.toList.map Name.text ++ bound)]

theorem Lambdas.flatMap_text_places : ∀ (items : Lambdas) (bound : List Text),
    (items.places bound).flatMap Place.text = items.toCodes.render
  | .none _, _ => by simp [Lambdas.places, Lambdas.toCodes, Codes.render, Place.text]
  | .last _ e _, bound => by
    simp [Lambdas.places, Lambdas.toCodes, Codes.render, Place.text, Label.text,
      e.flatMap_text_places bound]
  | .more _ e _ others, bound => by
    simp [Lambdas.places, Lambdas.toCodes, Codes.render, Place.text, Label.text,
      e.flatMap_text_places bound, others.flatMap_text_places bound]

end

/-! ## What the scan writes -/

section Written

variable (locals : List Text)

theorem writes_arrowMark {ctx : Context} {rest : Text} :
    Writes locals ctx arrowMark rest arrowMark Context.Ready := by
  refine (writes_marks locals ctx (by decide) (by decide) rest).mono ?_
  rintro ctx' - ⟨c, hlast, hgetLast, -⟩
  cases hgetLast
  exact Context.ready_of_last hlast (by decide) fun h => absurd h (by decide)

/-- A name in the place of an operand is written as its part. -/
theorem writes_place (n : Name) (bound : List Text) {ctx : Context} {rest : Text}
    (hctx : ctx.Operand) (hrest : headIs isNameChar rest = false) :
    Writes locals ctx n.text rest ((Place.name n bound).written locals)
      fun ctx' => ctx'.dots = 0 := by
  have hwritten : ((Expr.name n).resolve locals).render = (Place.name n bound).written locals := by
    cases hfree : n.isFree locals <;>
      simp [Expr.resolve, Place.written, hfree, Expr.render, Name.inContext, Name.context, Gap.none,
        memberMark]
  rw [← hwritten]
  exact writes_operand n hctx hrest

/-- A parameter is copied if its name is bound. -/
theorem writes_bound (n : Name) {ctx : Context} {rest : Text} (hbound : n.isFree locals = false)
    (hctx : ctx.Operand) (hrest : headIs isNameChar rest = false) :
    Writes locals ctx n.text rest n.text fun _ => True := by
  have hname := writes_place locals n [] hctx hrest
  rw [Place.written, if_neg (by simp [hbound])] at hname
  exact hname.mono fun _ _ _ => trivial

theorem Names.writes : ∀ (names : Names) (ctx : Context) (rest : Text),
    (∀ n ∈ names.toList, n.isFree locals = false) → ctx.Ready → ctx.brackets.head? ≠ some '{' →
    headIs isNameChar rest = false → Writes locals ctx names.text rest names.text fun _ => True
  | .none gap, _, _, _, _, _, _ => writes_keptGap gap keptByGaps_true trivial
  | .last first n behind, ctx, rest, hbound, hctx, _, hrest =>
    Writes.padded keptByGaps_ready hctx fun _ _ h₁ =>
      writes_bound locals n (hbound n List.mem_cons_self) h₁.operand
        (headIs_gap behind (fun _ => isNameChar_of_white) fun _ => hrest)
  | .more first n behind others, ctx, rest, hbound, hctx, hhead, hrest => by
    obtain ⟨hn, hothers⟩ := List.forall_mem_cons.1 hbound
    have hall := Writes.followed first behind hctx hhead
      (fun ctx₁ _ h₁ => writes_bound locals n hn h₁.operand
        (headIs_isNameChar (headIs_gapMark behind (by decide) _)))
      fun ctx₂ hbrackets₂ h₂ => others.writes ctx₂ rest hothers h₂ (by rwa [hbrackets₂]) hrest
    simpa [Names.text] using hall

theorem Parameters.writes (parameters : Parameters) {ctx : Context} {rest : Text}
    (hbound : ∀ n ∈ parameters.toList, n.isFree locals = false) (hctx : ctx.Operand)
    (hrest : headIs isNameChar rest = false) :
    Writes locals ctx parameters.text rest parameters.text fun _ => True := by
  cases parameters with
  | lone n => exact writes_bound locals n (hbound n List.mem_cons_self) hctx hrest
  | listed names =>
    refine (Writes.bracketed (by decide) (by decide) ?_).mono fun _ _ _ => trivial
    exact fun ctx₁ hready hhead => names.writes locals ctx₁ _ hbound hready hhead rfl

mutual

/-- Where all parameters are bound, the scan writes each part of an expression by itself. -/
theorem Lambda.writes : ∀ (e : Lambda) (bound : List Text) (ctx : Context) (rest : Text),
    e.toCode.isProper → (∀ n : Name, n.text ∈ e.parameters → n.isFree locals = false) →
    ctx.Operand → ctx.brackets.head? ≠ some '{' → e.toCode.ending.Stops rest →
    Writes locals ctx e.toCode.render rest ((e.places bound).flatMap (Place.written locals))
      fun ctx' => e.toCode.ending ≠ .number → ctx'.dots = 0
  | .name n, bound, ctx, rest, _, _, hctx, _, hrest => by
    have hname := writes_place locals n bound hctx hrest
    simpa [Lambda.places, Lambda.toCode, Code.render] using hname.mono fun _ _ hdots _ => hdots
  | .number n, bound, ctx, rest, _, _, _, _, hrest => by
    have hnumber := writes_number locals ctx n hrest
    simpa [Lambda.places, Lambda.toCode, Code.render, Place.written] using
      hnumber.mono fun _ _ _ hne => absurd rfl hne
  | .member base beforeDot optional behindDot n, bound, ctx, rest, hp, hbound, hctx, hhead,
      hrest => by
    simp only [Lambda.toCode, Code.isProper, Bool.and_eq_true, decide_eq_true_eq] at hp
    obtain ⟨⟨hbase, hending⟩, -⟩ := hp
    have hall := Writes.member beforeDot optional behindDot n
      ((base.writes bound ctx _ hbase hbound hctx hhead
      (Ending.stops_member hending beforeDot optional _)).mono fun _ _ hdots => hdots hending) hrest
    simpa [Lambda.places, Lambda.toCode, Code.render, Place.written] using
      hall.mono fun _ _ hdots _ => hdots
  | .call callee beforeBracket arguments, bound, ctx, rest, hp, hbound, hctx, hhead, _ => by
    simp only [Lambda.toCode, Code.isProper, Bool.and_eq_true] at hp
    obtain ⟨⟨hcallee, -⟩, harguments⟩ := hp
    have hall := Writes.applied beforeBracket '(' ')' (by decide) (by decide)
      (callee.writes bound ctx _ hcallee (fun n hn => hbound n (List.mem_append_left _ hn)) hctx
        hhead (Ending.stops_mark _ beforeBracket (by decide) _))
      fun ctx₁ hready hhead₁ => arguments.writes bound ctx₁ _ harguments
        (fun n hn => hbound n (List.mem_append_right _ hn)) hready hhead₁
        (headIs_mark (by decide) rest)
    simpa [Lambda.places, Lambda.toCode, Code.render, Place.written] using
      hall.mono fun _ _ hdots _ => hdots
  | .group first inner last, bound, ctx, rest, hp, hbound, _, _, _ => by
    have hall : Writes locals ctx ('(' :: (first.text ++ inner.toCode.render ++ last.text ++ [')']))
        rest ('(' :: (first.text ++ (inner.places bound).flatMap (Place.written locals) ++
          last.text ++ [')'])) fun ctx' => ctx'.dots = 0 :=
      Writes.bracketed (by decide) (by decide) fun ctx₁ hready hhead₁ =>
        Writes.padded keptByGaps_ready hready fun ctx₂ hbrackets₂ h₂ =>
          (inner.writes bound ctx₂ _ hp hbound h₂.operand (by rwa [hbrackets₂])
            (Ending.stops_mark _ last (by decide) _)).mono fun _ _ _ => trivial
    simpa [Lambda.places, Lambda.toCode, Code.render, Place.written] using
      hall.mono fun _ _ hdots _ => hdots
  | .between left beforeOp op behindOp right, bound, ctx, rest, hp, hbound, hctx, hhead, hrest => by
    simp only [Lambda.toCode, Code.isProper, Bool.and_eq_true] at hp
    obtain ⟨⟨⟨⟨hleft, hright⟩, -⟩, hbefore⟩, hbehind⟩ := hp
    have hall := Writes.operated beforeOp op behindOp (fun _ => hhead)
      (ne_nil_of_startsOperand right.toCode.render_startsOperand) hbehind
      (left.writes bound ctx _ hleft (fun n hn => hbound n (List.mem_append_left _ hn)) hctx hhead
        (Ending.stops_operator op hbefore _))
      fun ctx₁ hbrackets₁ h₁ => right.writes bound ctx₁ rest hright
        (fun n hn => hbound n (List.mem_append_right _ hn)) h₁.operand (by rwa [hbrackets₁]) hrest
    simpa [Lambda.places, Lambda.toCode, Code.render, Code.ending, Place.written] using hall
  | .conditional test beforeMark behindMark yes beforeColon behindColon no, bound, ctx, rest, hp,
      hbound, hctx, hhead, hrest => by
    simp only [Lambda.toCode, Code.isProper, Bool.and_eq_true] at hp
    obtain ⟨⟨⟨htest, -⟩, hyes⟩, hno⟩ := hp
    simp only [Lambda.parameters, List.mem_append] at hbound
    have hall := Writes.chosen beforeMark behindMark beforeColon behindColon
      (test.writes bound ctx _ htest (fun n hn => hbound n (.inl (.inl hn))) hctx hhead
        (Ending.stops_mark _ beforeMark (by decide) _))
      (fun ctx₁ hbrackets₁ h₁ => (yes.writes bound ctx₁ _ hyes
        (fun n hn => hbound n (.inl (.inr hn))) h₁.operand (by rwa [hbrackets₁])
        (Ending.stops_mark _ beforeColon (by decide) _)).mono fun _ _ _ => trivial)
      fun ctx₂ hbrackets₂ h₂ => no.writes bound ctx₂ rest hno (fun n hn => hbound n (.inr hn))
        h₂.operand (by rwa [hbrackets₂]) hrest
    simpa [Lambda.places, Lambda.toCode, Code.render, Code.ending, Place.written] using hall
  | .array items, bound, ctx, rest, hp, hbound, _, _, _ => by
    have hall : Writes locals ctx ('[' :: (items.toCodes.render ++ [']'])) rest
        ('[' :: ((items.places bound).flatMap (Place.written locals) ++ [']']))
        fun ctx' => ctx'.dots = 0 :=
      Writes.bracketed (by decide) (by decide) fun ctx₁ hready hhead₁ =>
        items.writes bound ctx₁ _ hp hbound hready hhead₁ (headIs_mark (by decide) rest)
    simpa [Lambda.places, Lambda.toCode, Code.render, Place.written] using
      hall.mono fun _ _ hdots _ => hdots
  | .arrow parameters beforeArrow behindArrow body, bound, ctx, rest, hp, hbound, hctx, hhead,
      hrest => by
    simp only [Lambda.toCode, Code.isProper, Bool.and_eq_true] at hp
    simp only [Lambda.parameters, List.mem_append] at hbound
    have hall : Writes locals ctx (parameters.text ++ beforeArrow.text ++ arrowMark ++
        behindArrow.text ++ body.toCode.render) rest
        (parameters.text ++ beforeArrow.text ++ arrowMark ++ behindArrow.text ++
          (body.places (parameters.toList.map Name.text ++ bound)).flatMap (Place.written locals))
        fun ctx' => body.toCode.ending ≠ .number → ctx'.dots = 0 :=
      Writes.between keptByGaps_true keptByGaps_ready
        (parameters.writes locals (fun n hn => hbound n (.inl (List.mem_map_of_mem hn))) hctx
          (headIs_isNameChar (headIs_gapMark beforeArrow (by decide) _)))
        (fun ctx₁ _ _ => writes_arrowMark locals)
        fun ctx₂ hbrackets₂ h₂ => body.writes (parameters.toList.map Name.text ++ bound) ctx₂ rest
          hp.1.1 (fun n hn => hbound n (.inr hn)) h₂.operand (by rwa [hbrackets₂]) hrest
    simpa [Lambda.places, Lambda.toCode, Code.render, Code.ending, asyncText, Place.written] using
      hall

theorem Lambdas.writes : ∀ (items : Lambdas) (bound : List Text) (ctx : Context) (rest : Text),
    items.toCodes.isProper → (∀ n : Name, n.text ∈ items.parameters → n.isFree locals = false) →
    ctx.Ready → ctx.brackets.head? ≠ some '{' → headIs isNumberChar rest = false →
    Writes locals ctx items.toCodes.render rest
      ((items.places bound).flatMap (Place.written locals)) fun _ => True
  | .none gap, bound, ctx, rest, _, _, _, _, _ => by
    simpa [Lambdas.places, Lambdas.toCodes, Codes.render, Place.written] using
      (writes_gap locals ctx gap rest).mono fun _ _ _ => trivial
  | .last first e last, bound, ctx, rest, hp, hbound, hctx, hhead, hrest => by
    simp only [Lambdas.toCodes, Codes.isProper, Bool.and_eq_true] at hp
    have hall : Writes locals ctx (first.text ++ e.toCode.render ++ last.text) rest
        (first.text ++ (e.places bound).flatMap (Place.written locals) ++ last.text)
        fun _ => True :=
      Writes.padded keptByGaps_ready hctx fun ctx₁ hbrackets₁ h₁ =>
        (e.writes bound ctx₁ _ hp.1 hbound h₁.operand (by rwa [hbrackets₁])
          (Ending.stops (headIs_gap last (fun _ => isNumberChar_of_white) fun _ => hrest))).mono
          fun _ _ _ => trivial
    simpa [Lambdas.places, Lambdas.toCodes, Codes.render, Label.text, Place.written] using hall
  | .more first e last others, bound, ctx, rest, hp, hbound, hctx, hhead, hrest => by
    simp only [Lambdas.toCodes, Codes.isProper, Bool.and_eq_true] at hp
    have hall := Writes.followed first last hctx hhead
      (fun ctx₁ hbrackets₁ h₁ => (e.writes bound ctx₁ _ hp.1.1
        (fun n hn => hbound n (List.mem_append_left _ hn)) h₁.operand (by rwa [hbrackets₁])
        (Ending.stops_mark _ last (by decide) _)).mono fun _ _ _ => trivial)
      fun ctx₂ hbrackets₂ h₂ => others.writes bound ctx₂ rest hp.2
        (fun n hn => hbound n (List.mem_append_right _ hn)) h₂ (by rwa [hbrackets₂]) hrest
    simpa [Lambdas.places, Lambdas.toCodes, Codes.render, Label.text, Place.written] using hall

end

end Written

end ModuleServer.Expression
