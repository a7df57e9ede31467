import ModuleServer.Proofs.Expression.Place

/-!
# Stretches of tokens

What the scan writes for a form of expression, put together from what it writes for the parts. The
parts are any stretches of text, so these statements are about every kind of tree that has the form.

* `Writes.member`, `Writes.applied`, `Writes.operated`, `Writes.chosen`, `Writes.followed`: members,
  brackets behind a value, operators, conditionals, and items behind which there are others.
* `Writes.bracketed`: inside round and square brackets an operand stands, and no entry of an object
  starts.
* `Ending.stops_member`, `Ending.stops_operator`: a dot and an operator end what stands before them.
-/

namespace ModuleServer.Expression

open Text

/-! ## Ends of parts -/

/-- Whatever is no number ends before the dot of a member; a number would take it for its own. -/
theorem Ending.stops_member {ending : Ending} (hne : ending ≠ .number) (gap : Gap) (optional : Bool)
    (t : Text) : ending.Stops (gap.text ++ (memberMark optional ++ t)) :=
  Ending.stops_of_ne hne <|
    headIs_gap gap (fun _ => isNameChar_of_white) fun _ => by cases optional <;> rfl

/-- A mark that goes on from no name and no number ends what stands before it. -/
theorem Ending.stops_mark (ending : Ending) (gap : Gap) {c : Char} (hc : isNumberChar c = false)
    (t : Text) : ending.Stops (gap.text ++ c :: t) :=
  Ending.stops (headIs_gapMark gap hc t)

/-- An operator ends what stands before it: a word does not touch the name or number there. -/
theorem Ending.stops_operator {ending : Ending} {gap : Gap} (op : Operator binaryMarks binaryWords)
    (hparts : gap.parts (ending ≠ .mark) op.isWord) (t : Text) :
    ending.Stops (gap.text ++ (op.text ++ t)) := by
  rcases op.known_cases with ⟨-, hmem⟩ | ⟨hword, -⟩
  · obtain ⟨hne, hplain, -⟩ := binaryMarks_plain _ hmem
    exact Ending.stops <| headIs_gap gap (fun _ => isNumberChar_of_white) fun _ =>
      headIs_marks hne hplain _
  · by_cases hmark : ending = .mark
    · rw [hmark]
      trivial
    · have hgap : gap.text ≠ [] := by
        simpa [Gap.parts, hmark, hword] using hparts
      exact Ending.stops <| headIs_gap gap (fun _ => isNumberChar_of_white) fun h => absurd h hgap

/-! ## Forms -/

section Forms

variable {locals : List Text} {ctx : Context} {t u v rest out out' out'' : Text}
  {P Q : Context → Prop}

/-- Inside round and square brackets no entry starts. -/
theorem ready_inside {c : Char} {brackets : Text} (hc : c ≠ '{' ∧ c ≠ '.' ∧ c ≠ ',')
    (hbrackets : ctx.brackets = c :: brackets) (hlast : ctx.last = some c) :
    ctx.Ready ∧ ctx.brackets.head? ≠ some '{' := by
  refine ⟨Context.ready_of_last hlast hc.2.1 ?_, by simp [hbrackets, hc.1]⟩
  rintro (h | h)
  · exact absurd h hc.1
  · exact absurd h hc.2.2

/-- Round or square brackets around a stretch of text. Whatever is before them, what is inside of
them starts afresh. -/
theorem Writes.bracketed {opening closing : Char} (hopening : opening ∈ ['(', '['])
    (hclosing : closing ∈ [')', ']'])
    (h : ∀ ctx' : Context, ctx'.Ready → ctx'.brackets.head? ≠ some '{' →
      Writes locals ctx' t (closing :: rest) out fun _ => True) :
    Writes locals ctx (opening :: (t ++ [closing])) rest (opening :: (out ++ [closing]))
      fun ctx' => ctx'.dots = 0 := by
  have hplain : opening ≠ '{' ∧ opening ≠ '.' ∧ opening ≠ ',' := by
    simp only [List.mem_cons, List.not_mem_nil, or_false] at hopening
    rcases hopening with rfl | rfl <;> decide
  refine Writes.enclosed ?_ ?_ fun ctx' hbrackets' hlast' => ?_
  · simp only [List.mem_cons, List.not_mem_nil, or_false] at hopening ⊢
    exact hopening.imp_right .inl
  · simp only [List.mem_cons, List.not_mem_nil, or_false] at hclosing ⊢
    exact hclosing.imp_right .inl
  · obtain ⟨hready, hhead⟩ := ready_inside hplain hbrackets' hlast'
    exact h ctx' hready hhead

/-- A value with round or square brackets behind it: a call, or a member that an expression names.
-/
theorem Writes.applied (gap : Gap) (opening closing : Char) (hopening : opening ∈ ['(', '['])
    (hclosing : closing ∈ [')', ']'])
    (ht : Writes locals ctx t (gap.text ++ (opening :: (u ++ [closing]) ++ rest)) out P)
    (hu : ∀ ctx' : Context, ctx'.Ready → ctx'.brackets.head? ≠ some '{' →
      Writes locals ctx' u (closing :: rest) out' fun _ => True) :
    Writes locals ctx (t ++ gap.text ++ opening :: (u ++ [closing])) rest
      (out ++ gap.text ++ opening :: (out' ++ [closing])) fun ctx' => ctx'.dots = 0 := by
  have hgap := ht.append fun ctx₁ _ _ => writes_keptGap gap keptByGaps_true trivial
  exact hgap.append fun _ _ _ => Writes.bracketed hopening hclosing hu

/-- A value and the name of a member of it. -/
theorem Writes.member (beforeDot : Gap) (optional : Bool) (behindDot : Gap) (n : Name)
    (ht : Writes locals ctx t
      (beforeDot.text ++ (memberMark optional ++ (behindDot.text ++ (n.text ++ rest)))) out
      fun ctx' => ctx'.dots = 0)
    (hrest : headIs isNameChar rest = false) :
    Writes locals ctx (t ++ beforeDot.text ++ memberMark optional ++ behindDot.text ++ n.text) rest
      (out ++ beforeDot.text ++ memberMark optional ++ behindDot.text ++ n.text)
      fun ctx' => ctx'.dots = 0 := by
  refine Writes.between (P := fun ctx' => ctx'.dots = 0)
    (R := fun ctx' => ctx'.last = some '.' ∧ ctx'.dots < 3) ?_ ?_ ht ?_ ?_
  · rintro _ _ hdots - - hle
    omega
  · rintro _ _ ⟨hlast, hdots⟩ - hsame hle
    exact ⟨hsame.trans hlast, Nat.lt_of_le_of_lt hle hdots⟩
  · exact fun ctx₁ _ hdots => writes_memberMark optional hdots
  · exact fun ctx₂ _ h₂ => writes_memberName n h₂.1 h₂.2 hrest

/-- Two operands and an operator between them. A comma is no operator where an entry of an object
would start behind it. -/
theorem Writes.operated (beforeOp : Gap) (op : Operator binaryMarks binaryWords) (behindOp : Gap)
    (hcomma : op.text = [','] → ctx.brackets.head? ≠ some '{') (hne : u ≠ [])
    (hparts : behindOp.parts op.isWord (headIs isNameChar u))
    (ht : Writes locals ctx t (beforeOp.text ++ (op.text ++ (behindOp.text ++ (u ++ rest)))) out P)
    (hu : ∀ ctx', ctx'.brackets = ctx.brackets → ctx'.Ready → Writes locals ctx' u rest out' Q) :
    Writes locals ctx (t ++ beforeOp.text ++ op.text ++ behindOp.text ++ u) rest
      (out ++ beforeOp.text ++ op.text ++ behindOp.text ++ out') Q := by
  refine Writes.between keptByGaps_true keptByGaps_ready (ht.mono fun _ _ _ => trivial) ?_ hu
  intro ctx₁ hbrackets₁ _
  have hbehind : behindOp.parts op.isWord (headIs isNameChar (u ++ rest)) := by
    rwa [headIs_append hne]
  exact op.writes locals binaryMarks_plain binaryWords_keyword
    (fun hword => headIs_parts hbehind hword) fun h => by rw [hbrackets₁]; exact hcomma h

/-- A test and two values. -/
theorem Writes.chosen (beforeMark behindMark beforeColon behindColon : Gap)
    (ht : Writes locals ctx t (beforeMark.text ++ (['?'] ++ (behindMark.text ++ (u ++
      (beforeColon.text ++ ([':'] ++ (behindColon.text ++ (v ++ rest)))))))) out P)
    (hu : ∀ ctx', ctx'.brackets = ctx.brackets → ctx'.Ready →
      Writes locals ctx' u (beforeColon.text ++ ([':'] ++ (behindColon.text ++ (v ++ rest)))) out'
        fun _ => True)
    (hv : ∀ ctx', ctx'.brackets = ctx.brackets → ctx'.Ready → Writes locals ctx' v rest out'' Q) :
    Writes locals ctx (t ++ beforeMark.text ++ ['?'] ++ behindMark.text ++ u ++ beforeColon.text ++
        [':'] ++ behindColon.text ++ v) rest
      (out ++ beforeMark.text ++ ['?'] ++ behindMark.text ++ out' ++ beforeColon.text ++ [':'] ++
        behindColon.text ++ out'') Q := by
  have hyes := Writes.between keptByGaps_true keptByGaps_ready (ht.mono fun _ _ _ => trivial)
    (fun ctx₁ _ _ => writes_plain (c := '?') (by decide) fun h => absurd h (by decide)) hu
  exact Writes.between keptByGaps_true keptByGaps_ready hyes
    (fun ctx₃ _ _ => writes_plain (c := ':') (by decide) fun h => absurd h (by decide)) hv

/-- An item, a comma, and the other items, where no entry of an object starts. -/
theorem Writes.followed (first last : Gap) (hctx : ctx.Ready)
    (hhead : ctx.brackets.head? ≠ some '{')
    (ht : ∀ ctx', ctx'.brackets = ctx.brackets → ctx'.Ready →
      Writes locals ctx' t (last.text ++ ',' :: (u ++ rest)) out fun _ => True)
    (hu : ∀ ctx', ctx'.brackets = ctx.brackets → ctx'.Ready → Writes locals ctx' u rest out' Q) :
    Writes locals ctx (first.text ++ t ++ last.text ++ [','] ++ u) rest
      (first.text ++ out ++ last.text ++ [','] ++ out') Q := by
  have hitem : Writes locals ctx (first.text ++ t ++ last.text) (',' :: (u ++ rest))
      (first.text ++ out ++ last.text) fun _ => True :=
    Writes.padded keptByGaps_ready hctx ht
  have hcomma := hitem.append (u := [',']) fun ctx₂ hbrackets₂ _ =>
    writes_plain (c := ',') (by decide) fun _ => by rwa [hbrackets₂]
  exact hcomma.append fun ctx₃ hbrackets₃ h₃ => hu ctx₃ hbrackets₃ h₃

end Forms

end ModuleServer.Expression
