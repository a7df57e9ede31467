import ModuleServer.Proofs.Expression.Ends
import ModuleServer.Proofs.Text.Pieces

/-!
# What is taken for a path or a function

The two tests for the shapes that are a listener as they stand look at the text of an expression.
What they find is said here of its tree.

* `Code.isFunction_render`: whether an expression is taken for a function depends on its first token
  alone (`Lead.seemsFunction`), which is found by going down on the left of the tree.
* `Code.isMemberPath_render`: an expression is taken for a path if it is a name with members, with
  no white space between them.
-/

namespace ModuleServer.Expression

open Text

/-! ## The first token -/

/-- The first token of an expression, and what is to be known of it. -/
inductive Lead where
  /-- A name, with the white space behind it. -/
  | name (n : Name) (behind : Gap)
  /-- The word that makes an arrow asynchronous, with the white space behind it, or the parameters
  of an arrow. -/
  | arrow (async : Option Gap)
  /-- The word for a function. -/
  | function
  /-- The bracket before an expression. -/
  | group (inner : Code)
  /-- Anything else. -/
  | other

/-- The first token of an expression, `behind` being the white space behind the expression. -/
def Code.lead (behind : Gap) : Code → Lead
  | .name n => .name n behind
  | .member base beforeDot _ _ _ => base.lead beforeDot
  | .index base beforeBracket _ _ _ => base.lead beforeBracket
  | .call callee beforeBracket _ => callee.lead beforeBracket
  | .group _ inner _ => .group inner
  | .behind operand gap _ => operand.lead gap
  | .between left beforeOp _ _ _ => left.lead beforeOp
  | .conditional test beforeMark _ _ _ _ _ => test.lead beforeMark
  | .arrow async _ _ _ _ => .arrow async
  | .function .. => .function
  | _ => .other

/-- Whether white space starts with a space. -/
def Gap.startsWithSpace (gap : Gap) : Bool :=
  headIs (· = ' ') gap.text

/-- Whether an expression that starts with a token is taken for a function. -/
def Lead.seemsFunction : Lead → Bool
  | name n behind =>
    startsWith functionWord n.text || (n.text = "async".toList && behind.startsWithSpace)
  | arrow async => async.all Gap.startsWithSpace
  | function => true
  | group _ => false
  | other => false

/-- Whether, if an expression starts with a bracket, no string and no template text in the brackets
has a round bracket. -/
def Lead.isRoundFree : Lead → Bool
  | group inner => inner.isRoundFree
  | _ => true

/-! ## Words at the start of a text -/

section Words

variable {p : Char → Bool} {word run rest : Text}

/-- Whether a text starts with a word of a class depends on the run of that class that it starts
with. -/
theorem startsWith_run (hword : word.all p) (hrest : headIs p rest = false) :
    startsWith word (run ++ rest) = startsWith word run := by
  induction word generalizing run with
  | nil => rfl
  | cons a word ih =>
    simp only [List.all_cons, Bool.and_eq_true] at hword
    cases run with
    | nil =>
      cases rest with
      | nil => rfl
      | cons c rest =>
        have hne : a ≠ c := by
          rintro rfl
          exact absurd (hword.1.symm.trans hrest) Bool.noConfusion
        simp [startsWith, after?, hne]
    | cons c run =>
      by_cases hc : a = c
      · have hbehind : startsWith word (run ++ rest) = startsWith word run := ih hword.2
        simpa [startsWith, after?, hc] using hbehind
      · simp [startsWith, after?, hc]

/-- A text starts with a word of a class and a character of another if the word is the run of that
class that it starts with. -/
theorem startsWith_run_concat {c : Char} (hword : word.all p) (hrun : run.all p) (hc : p c = false)
    (hrest : headIs p rest = false) :
    startsWith (word ++ [c]) (run ++ rest) = (run = word && headIs (· = c) rest) := by
  induction word generalizing run with
  | nil =>
    cases run with
    | nil =>
      cases rest with
      | nil => rfl
      | cons d rest => by_cases hd : c = d <;> simp [startsWith, after?, headIs, hd, eq_comm]
    | cons d run =>
      simp only [List.all_cons, Bool.and_eq_true] at hrun
      have hne : c ≠ d := by
        rintro rfl
        exact absurd (hrun.1.symm.trans hc) Bool.noConfusion
      simp [startsWith, after?, hne]
  | cons a word ih =>
    simp only [List.all_cons, Bool.and_eq_true] at hword
    cases run with
    | nil =>
      cases rest with
      | nil => rfl
      | cons d rest =>
        have hne : a ≠ d := by
          rintro rfl
          exact absurd (hword.1.symm.trans hrest) Bool.noConfusion
        simp [startsWith, after?, hne]
    | cons d run =>
      simp only [List.all_cons, Bool.and_eq_true] at hrun
      by_cases hd : a = d
      · simpa [startsWith, after?, hd] using ih hword.2 hrun.2
      · simp [startsWith, after?, hd, Ne.symm hd]

theorem startsWith_cons_of_ne {a c : Char} (h : a ≠ c) (word t : Text) :
    startsWith (a :: word) (c :: t) = false := by
  simp [startsWith, after?, h]

end Words

/-! ## First tokens that are taken for a function -/

section Tests

variable {t run inner rest : Text} {c : Char}

theorem isFunction_of_visible (h : headIs isWhite t = false) :
    isFunction t = (startsWith functionWord t || startsWith "async ".toList t ||
      (afterParameters? t).any fun behind => startsWith arrowMark (trimStart behind)) := by
  have hrun : ([] ++ t : Text).dropWhile isWhite = t := dropWhile_run rfl h
  have htrim : trimStart t = t := hrun
  rw [isFunction, htrim]
  cases afterParameters? t <;> rfl

theorem startsWith_pair_of_headIs {a b : Char} {t : Text} (h : headIs (· = b) t = false) :
    startsWith [a, b] (a :: t) = false := by
  cases t with
  | nil => simp [startsWith, after?]
  | cons c t =>
    have hc : b ≠ c := by
      rintro rfl
      simp [headIs] at h
    simp [startsWith, after?, hc]

/-- The two words start with letters. -/
theorem startsWith_word_of_ne (hfunction : 'f' ≠ c) (hasync : 'a' ≠ c) (t : Text) :
    startsWith functionWord (c :: t) = false ∧ startsWith "async ".toList (c :: t) = false :=
  ⟨startsWith_cons_of_ne hfunction "unction".toList t,
    startsWith_cons_of_ne hasync "sync ".toList t⟩

/-- A text that starts with a mark, but no bracket, is not taken for a function. -/
theorem isFunction_mark (hwhite : isWhite c = false) (hname : isNameChar c = false)
    (hround : c ≠ '(') (t : Text) : isFunction (c :: t) = false := by
  have hne : ∀ d : Char, isNameChar d → d ≠ c := by
    rintro d hd rfl
    exact absurd (hd.symm.trans hname) Bool.noConfusion
  have hafter : afterParameters? (c :: t) = none := by
    simp [afterParameters?, hround, hname]
  have hvisible : headIs isWhite (c :: t) = false := hwhite
  obtain ⟨hfunction, hasync⟩ :=
    startsWith_word_of_ne (hne 'f' (by decide)) (hne 'a' (by decide)) t
  rw [isFunction_of_visible hvisible, hfunction, hasync, hafter]
  rfl

/-- A text that starts with a word is taken for a function if the word starts with the one for a
function, is `async` before a space, or stands before an arrow. -/
theorem isFunction_run (hne : run ≠ []) (hrun : run.all isNameChar)
    (hrest : headIs isNameChar rest = false) :
    isFunction (run ++ rest) = (startsWith functionWord run ||
      (run = "async".toList && headIs (· = ' ') rest) ||
        startsWith arrowMark (trimStart rest)) := by
  have hfunction : functionWord.all isNameChar := by decide
  have hasync : "async".toList.all isNameChar := by decide
  have hspace : isNameChar ' ' = false := by decide
  have hwhite : headIs isWhite (run ++ rest) = false := by
    rw [headIs_append hne]
    exact headIs_eq_false fun c hc => isWhite_of_isNameChar (List.all_eq_true.1 hrun c hc)
  have hafter : afterParameters? (run ++ rest) = some rest := by
    obtain ⟨c, run, rfl⟩ := List.exists_cons_of_ne_nil hne
    simp only [List.all_cons, Bool.and_eq_true] at hrun
    have hround : c ≠ '(' := by
      rintro rfl
      exact absurd hrun.1 (by decide)
    rw [List.cons_append, afterParameters?, if_neg hround, if_pos hrun.1,
      dropWhile_run hrun.2 hrest]
  rw [isFunction_of_visible hwhite, hafter, startsWith_run hfunction hrest,
    ← startsWith_run_concat hasync hrun hspace hrest]
  rfl

/-- A text that starts with brackets is taken for a function if an arrow stands behind them. -/
theorem isFunction_group (h : Nested inner) (rest : Text) :
    isFunction ('(' :: (inner ++ ')' :: rest)) = startsWith arrowMark (trimStart rest) := by
  have hafter : afterParameters? ('(' :: (inner ++ ')' :: rest)) = some rest := by
    rw [afterParameters?, if_pos rfl, h.groupAfter?]
    rfl
  have hround : isWhite '(' = false := by decide
  have hvisible : headIs isWhite ('(' :: (inner ++ ')' :: rest)) = false := hround
  obtain ⟨hfunction, hasync⟩ :=
    startsWith_word_of_ne (c := '(') (by decide) (by decide) (inner ++ ')' :: rest)
  rw [isFunction_of_visible hvisible, hfunction, hasync, hafter]
  rfl

theorem headIs_eq_of_white {p : Char → Bool} (hp : ∀ c, p c → isWhite c)
    (h : headIs isWhite t = false) : headIs p t = false := by
  cases t with
  | nil => rfl
  | cons c t =>
    refine Bool.eq_false_iff.2 fun hc => ?_
    exact absurd ((hp c hc).symm.trans h) Bool.noConfusion

/-- White space does not hide what stands behind it. -/
theorem trimStart_gap (gap : Gap) (h : headIs isWhite rest = false) :
    trimStart (gap.text ++ rest) = rest :=
  dropWhile_run gap.white h

/-- No arrow starts as an operand does. -/
theorem not_startsWith_arrow (h : startsOperand t) (rest : Text) :
    startsWith arrowMark (t ++ rest) = false := by
  cases t with
  | nil => cases h
  | cons c t =>
    simp only [startsOperand, Bool.and_eq_true, decide_eq_true_eq] at h
    exact startsWith_cons_of_ne (Ne.symm h.1.1.2) _ _

end Tests

/-! ## What stands behind -/

/-- What stands behind an expression, and behind the white space after it, goes on with nothing of
it: it is no arrow, and does not touch a word. -/
structure Follows (ending : Ending) (gap : Gap) (rest : Text) : Prop where
  white : headIs isWhite rest = false
  arrow : startsWith arrowMark rest = false
  word : ending ≠ .mark → headIs isNameChar (gap.text ++ rest) = false

section Follows

variable {ending : Ending} {gap : Gap}

theorem Follows.nil (ending : Ending) (gap : Gap) : Follows ending gap [] where
  white := rfl
  arrow := rfl
  word _ := headIs_gap gap (fun _ => isNameChar_of_white) fun _ => rfl

theorem Follows.mark {c : Char} (hwhite : isWhite c = false) (hname : isNameChar c = false)
    (hequals : '=' ≠ c) (t : Text) : Follows ending gap (c :: t) where
  white := hwhite
  arrow := startsWith_cons_of_ne hequals _ t
  word _ := headIs_gap gap (fun _ => isNameChar_of_white) fun _ => hname

theorem Follows.memberMark (optional : Bool) (t : Text) :
    Follows ending gap (memberMark optional ++ t) := by
  cases optional <;> exact .mark (by decide) (by decide) (by decide) _

theorem Follows.behind (op : Operator postfixMarks []) (t : Text) :
    Follows ending gap (op.text ++ t) := by
  have hmem : op.text ∈ postfixMarks := by simpa using op.known
  simp only [postfixMarks, List.map_cons, List.map_nil, List.mem_cons, List.not_mem_nil,
    or_false] at hmem
  rcases hmem with h | h <;> rw [h] <;> exact .mark (by decide) (by decide) (by decide) _

/-- No operator between two operands that is made of marks starts an arrow, unless it is an equals
sign by itself. -/
theorem binaryMarks_start : ∀ t ∈ binaryMarks, headIs (fun c => !isWhite c && !isNameChar c) t ∧
    (headIs (· = '=') t → t = ['='] ∨ headIs (· = '=') t.tail) := by
  decide

/-- An operand does not end an arrow. -/
theorem headIs_angle {t : Text} (gap : Gap) (ht : startsOperand t) :
    headIs (· = '>') (gap.text ++ t) = false := by
  refine headIs_gap gap (fun c hc => decide_eq_false ?_) fun _ => ?_
  · rintro rfl
    exact absurd hc (by decide)
  · cases t with
    | nil => rfl
    | cons c t => simp_all [startsOperand, headIs]

/-- An operator between two operands is no arrow, and becomes none by the operand behind it. -/
theorem Follows.binary (op : Operator binaryMarks binaryWords) {behind : Gap} {t : Text}
    (hparts : gap.parts (ending ≠ .mark) op.isWord) (ht : startsOperand t) :
    Follows ending gap (op.text ++ (behind.text ++ t)) := by
  rcases op.known_cases with ⟨-, hmem⟩ | ⟨hword, hmem⟩
  · obtain ⟨hstart, hequals⟩ := binaryMarks_start _ hmem
    generalize op.text = text at hstart hequals ⊢
    cases text with
    | nil => cases hstart
    | cons c s =>
      simp only [headIs, Bool.and_eq_true, Bool.not_eq_true'] at hstart
      refine ⟨hstart.1, ?_, fun _ =>
        headIs_gap gap (fun _ => isNameChar_of_white) fun _ => hstart.2⟩
      by_cases hc : c = '='
      · rcases hequals (decide_eq_true hc) with hlone | hdouble
        · obtain ⟨rfl, rfl⟩ := List.cons.inj hlone
          exact startsWith_pair_of_headIs (headIs_angle behind ht)
        · refine hc ▸ startsWith_pair_of_headIs (t := s ++ _) ?_
          cases s with
          | nil => cases hdouble
          | cons d s =>
            obtain rfl : d = '=' := of_decide_eq_true hdouble
            rfl
      · exact startsWith_cons_of_ne (Ne.symm hc) _ _
  · have hstart : ∀ t ∈ binaryWords, headIs (fun c => !isWhite c && isNameChar c && c ≠ '=') t := by
      decide
    have hhead := hstart _ hmem
    generalize htext : op.text = text at hhead ⊢
    cases text with
    | nil => cases hhead
    | cons c s =>
      simp only [headIs, Bool.and_eq_true, Bool.not_eq_true', decide_eq_true_eq] at hhead
      refine ⟨hhead.1.1, startsWith_cons_of_ne (Ne.symm hhead.2) _ _, fun hending => ?_⟩
      have hmeet : gap.parts true (headIs isNameChar (c :: s ++ (behind.text ++ t))) := by
        simpa [hending, hword, headIs, hhead.1.2] using hparts
      exact headIs_parts hmeet rfl

end Follows

/-! ## Functions -/

section Functions

variable {gap : Gap} {rest : Text}

/-- A space stands behind a token if the white space there starts with one. -/
theorem headIs_space (gap : Gap) (h : headIs isWhite rest = false) :
    headIs (· = ' ') (gap.text ++ rest) = gap.startsWithSpace := by
  cases htext : gap.text with
  | nil =>
    rw [List.nil_append, Gap.startsWithSpace, htext]
    refine headIs_eq_of_white (fun c hc => ?_) h
    obtain rfl : c = ' ' := of_decide_eq_true hc
    decide
  | cons c t => simp [Gap.startsWithSpace, htext, headIs]

theorem isFunction_name (n : Name) (h : Follows .word gap rest) :
    isFunction (n.text ++ (gap.text ++ rest)) = (Lead.name n gap).seemsFunction := by
  rw [isFunction_run n.text_ne_nil (all_isNameChar n) (h.word (by decide)),
    headIs_space gap h.white, trimStart_gap gap h.white, h.arrow, Bool.or_false]
  rfl

/-- A word that is none of the two is not taken for the start of a function unless an arrow stands
behind it. -/
theorem isFunction_word {word : Text} (hne : word ≠ []) (hword : word.all isNameChar)
    (hother : startsWith functionWord word = false ∧ word ≠ "async".toList)
    (hrest : headIs isNameChar rest = false)
    (harrow : startsWith arrowMark (trimStart rest) = false) :
    isFunction (word ++ rest) = false := by
  rw [isFunction_run hne hword hrest, hother.1, harrow, decide_eq_false hother.2]
  rfl

theorem isFunction_number (n : Number) (h : Follows .number gap rest) :
    isFunction (n.text ++ (gap.text ++ rest)) = false := by
  rcases n.text_cases with ⟨c, t, htext, hc⟩ | ⟨c, t, htext, -⟩
  · -- the digits that the number starts with, and a dot or a sign behind them
    obtain ⟨digits, others, hsplit, hdigits, hothers⟩ := exists_run isNameChar t
    have hchars := n.all_chars
    rw [htext, hsplit] at hchars ⊢
    have hword : (c :: digits).all isNameChar := by
      rw [List.all_cons, (classes_of_digit hc).2.1, hdigits]
      rfl
    have hother : startsWith functionWord (c :: digits) = false ∧ c :: digits ≠ "async".toList := by
      have hletter : ∀ d : Char, d.isDigit = false → d ≠ c := by
        rintro d hd rfl
        exact absurd (hc.symm.trans hd) Bool.noConfusion
      refine ⟨(startsWith_word_of_ne (hletter 'f' (by decide)) (hletter 'a' (by decide)) _).1, ?_⟩
      intro heq
      exact hletter 'a' (by decide) (List.cons.inj heq).1.symm
    rw [← List.cons_append, List.append_assoc]
    refine isFunction_word (List.cons_ne_nil _ _) hword hother ?_ ?_
    · cases others with
      | nil => exact h.word (by decide)
      | cons d others => exact hothers
    · cases others with
      | nil =>
        rw [List.nil_append, trimStart_gap gap h.white]
        exact h.arrow
      | cons d others =>
        have hd : isNameChar d = false := hothers
        have hmark : d = '.' ∨ d = '+' ∨ d = '-' := by
          simpa [isNumberChar, hd, or_assoc] using List.all_eq_true.1 hchars d (by simp)
        rcases hmark with rfl | rfl | rfl <;> rfl
  · rw [htext]
    exact isFunction_mark (by decide) (by decide) (by decide) _

theorem isFunction_before (op : Operator prefixMarks prefixWords) {operand : Text}
    (hparts : gap.parts op.isWord (headIs isNameChar operand)) (hoperand : startsOperand operand)
    (rest : Text) : isFunction (op.text ++ (gap.text ++ (operand ++ rest))) = false := by
  have hvisible := startsOperand_append hoperand rest
  rcases op.known_cases with ⟨-, hmem⟩ | ⟨hword, hmem⟩
  · have hmarks : ∀ t ∈ prefixMarks,
        headIs (fun c => !isWhite c && !isNameChar c && c ≠ '(') t := by decide
    have hhead := hmarks _ hmem
    cases htext : op.text with
    | nil =>
      rw [htext] at hhead
      cases hhead
    | cons c t =>
      simp only [htext, headIs, Bool.and_eq_true, Bool.not_eq_true', decide_eq_true_eq] at hhead
      exact isFunction_mark hhead.1.1 hhead.1.2 hhead.2 _
  · have hwords : ∀ t ∈ prefixWords, t ≠ [] ∧ t.all isNameChar ∧
        startsWith functionWord t = false ∧ t ≠ "async".toList := by decide
    obtain ⟨hne, hall, hother⟩ := hwords _ hmem
    refine isFunction_word hne hall hother ?_ ?_
    · refine headIs_parts ?_ hword
      rw [headIs_append (ne_nil_of_startsOperand hoperand)]
      exact hparts
    · rw [trimStart_gap gap (headIs_isWhite_of_startsOperand hvisible)]
      exact not_startsWith_arrow hoperand rest

/-- An arrow is taken for a function unless it starts with the word that makes it asynchronous and
no space behind it. -/
theorem isFunction_arrow (async : Option Gap) (parameters : Parameters)
    (hparts : async.all fun gap => gap.parts true (headIs isNameChar parameters.text))
    (rest : Text) :
    isFunction (asyncText async ++ (parameters.text ++ (gap.text ++ (arrowMark ++ rest)))) =
      (Lead.arrow async).seemsFunction := by
  have harrow : headIs isWhite (arrowMark ++ rest) = false := by rfl
  have hfound : startsWith arrowMark (trimStart (gap.text ++ (arrowMark ++ rest))) = true := by
    rw [trimStart_gap gap harrow]
    rfl
  cases async with
  | none =>
    cases parameters with
    | lone n =>
      have hrest : headIs isNameChar (gap.text ++ (arrowMark ++ rest)) = false :=
        headIs_gap gap (fun _ => isNameChar_of_white) fun _ => rfl
      have hname := isFunction_run n.text_ne_nil (all_isNameChar n) hrest
      rw [hfound, Bool.or_true] at hname
      exact hname
    | listed names =>
      have hgroup := isFunction_group names.nested (gap.text ++ (arrowMark ++ rest))
      rw [hfound] at hgroup
      simpa [asyncText, Parameters.text, Lead.seemsFunction] using hgroup
  | some between =>
    have hstart := startsOperand_append parameters.text_startsOperand
      (gap.text ++ (arrowMark ++ rest))
    have hwhite := headIs_isWhite_of_startsOperand hstart
    have hrest : headIs isNameChar
        (between.text ++ (parameters.text ++ (gap.text ++ (arrowMark ++ rest)))) = false := by
      have hmeet : between.parts true
          (headIs isNameChar (parameters.text ++ (gap.text ++ (arrowMark ++ rest)))) := by
        rw [headIs_append (ne_nil_of_startsOperand parameters.text_startsOperand)]
        exact hparts
      exact headIs_parts hmeet rfl
    have hword : "async".toList ≠ [] := by decide
    have hasync := isFunction_run hword (by decide) hrest
    rw [headIs_space between hwhite, trimStart_gap between hwhite,
      not_startsWith_arrow parameters.text_startsOperand, Bool.or_false] at hasync
    rw [asyncText, List.append_assoc]
    exact hasync

theorem isFunction_functionWord (rest : Text) : isFunction (functionWord ++ rest) = true := by
  have hvisible : headIs isWhite (functionWord ++ rest) = false := rfl
  have hstarts : startsWith functionWord (functionWord ++ rest) = true := by
    rw [startsWith, after?_append]
    rfl
  rw [isFunction_of_visible hvisible, hstarts]
  rfl

end Functions

/-- Whether an expression is taken for a function depends on its first token. -/
theorem Code.isFunction_append : ∀ (e : Code) (gap : Gap) (rest : Text), e.isProper →
    (e.lead gap).isRoundFree → Follows e.ending gap rest →
    Expression.isFunction (e.render ++ (gap.text ++ rest)) = (e.lead gap).seemsFunction
  | .name n, gap, rest, _, _, hrest => isFunction_name n hrest
  | .number n, gap, rest, _, _, hrest => isFunction_number n hrest
  | .string s, gap, rest, _, _, _ => by
    rcases s.isQuote with h | h <;> simp only [Code.render, Quoted.text, h] <;>
      exact isFunction_mark (by decide) (by decide) (by decide) _
  | .template _ _, _, _, _, _, _ => isFunction_mark (by decide) (by decide) (by decide) _
  | .member base beforeDot optional behindDot n, gap, rest, hp, hround, _ => by
    simp only [Code.isProper, Bool.and_eq_true] at hp
    have hbase := base.isFunction_append beforeDot
      (memberMark optional ++ (behindDot.text ++ (n.text ++ (gap.text ++ rest)))) hp.1.1 hround
      (.memberMark optional _)
    simpa only [Code.render, Code.lead, List.append_assoc] using hbase
  | .index base beforeBracket first key last, gap, rest, hp, hround, _ => by
    simp only [Code.isProper, Bool.and_eq_true] at hp
    have hbase := base.isFunction_append beforeBracket
      ('[' :: (first.text ++ key.render ++ last.text ++ [']']) ++ (gap.text ++ rest)) hp.1.1 hround
      (.mark (by decide) (by decide) (by decide) _)
    simpa only [Code.render, Code.lead, List.append_assoc] using hbase
  | .call callee beforeBracket arguments, gap, rest, hp, hround, _ => by
    simp only [Code.isProper, Bool.and_eq_true] at hp
    have hcallee := callee.isFunction_append beforeBracket
      ('(' :: (arguments.render ++ [')']) ++ (gap.text ++ rest)) hp.1.1 hround
      (.mark (by decide) (by decide) (by decide) _)
    simpa only [Code.render, Code.lead, List.append_assoc] using hcallee
  | .group first inner last, gap, rest, _, hround, hrest => by
    have hinner := (first.nested.append (inner.nested_render hround)).append last.nested
    have hgroup := isFunction_group hinner (gap.text ++ rest)
    rw [trimStart_gap gap hrest.white, hrest.arrow] at hgroup
    simpa only [Code.render, Code.lead, Lead.seemsFunction, List.cons_append, List.append_assoc,
      List.nil_append] using hgroup
  | .before op _ operand, gap, rest, hp, _, _ => by
    simp only [Code.isProper, Bool.and_eq_true] at hp
    have hop := isFunction_before op hp.2 operand.render_startsOperand (gap.text ++ rest)
    simpa only [Code.render, Code.lead, Lead.seemsFunction, List.append_assoc] using hop
  | .behind operand beforeOp op, gap, rest, hp, hround, _ => by
    simp only [Code.isProper, Bool.and_eq_true] at hp
    have hoperand := operand.isFunction_append beforeOp (op.text ++ (gap.text ++ rest)) hp.1 hround
      (.behind op _)
    simpa only [Code.render, Code.lead, List.append_assoc] using hoperand
  | .between left beforeOp op behindOp right, gap, rest, hp, hround, _ => by
    simp only [Code.isProper, Bool.and_eq_true] at hp
    have hleft := left.isFunction_append beforeOp
      (op.text ++ (behindOp.text ++ (right.render ++ (gap.text ++ rest)))) hp.1.1.1.1 hround
      (.binary op hp.1.2 (startsOperand_append right.render_startsOperand _))
    simpa only [Code.render, Code.lead, List.append_assoc] using hleft
  | .conditional test beforeMark behindMark yes beforeColon behindColon no, gap, rest, hp, hround,
      _ => by
    simp only [Code.isProper, Bool.and_eq_true] at hp
    have htest := test.isFunction_append beforeMark ('?' :: (behindMark.text ++ yes.render ++
      beforeColon.text ++ ':' :: (behindColon.text ++ no.render)) ++ (gap.text ++ rest))
      hp.1.1.1 hround (.mark (by decide) (by decide) (by decide) _)
    simpa only [Code.render, Code.lead, List.append_assoc] using htest
  | .array _, _, _, _, _, _ => isFunction_mark (by decide) (by decide) (by decide) _
  | .object _, _, _, _, _, _ => isFunction_mark (by decide) (by decide) (by decide) _
  | .arrow async parameters beforeArrow behindArrow body, gap, rest, hp, _, _ => by
    simp only [Code.isProper, Bool.and_eq_true] at hp
    have harrow : Expression.isFunction (asyncText async ++ (parameters.text ++ (beforeArrow.text ++
        (arrowMark ++ (behindArrow.text ++ (body.render ++ (gap.text ++ rest))))))) =
          (Lead.arrow async).seemsFunction :=
      isFunction_arrow async parameters hp.2 _
    simpa only [Code.render, Code.lead, List.append_assoc] using harrow
  | .function .., _, _, _, _, _ => by
    rw [Code.render, List.append_assoc]
    exact isFunction_functionWord _

/-- Whether an expression is taken for a function. -/
def Code.seemsFunction (e : Code) : Bool :=
  (e.lead .none).seemsFunction

/-- An expression is taken for a function exactly if its first token is taken for the start of one.
-/
theorem Code.isFunction_render {e : Code} (hproper : e.isProper)
    (hround : (e.lead .none).isRoundFree) : Expression.isFunction e.render = e.seemsFunction := by
  have h := e.isFunction_append .none [] hproper hround (.nil _ _)
  rwa [Gap.none, List.append_nil, List.append_nil] at h

/-! ## Paths -/

/-- Whether an expression is taken for a path. -/
def Code.seemsPath : Code → Bool
  | .name _ => true
  | .member base beforeDot optional behindDot _ =>
    !optional && beforeDot.text.isEmpty && behindDot.text.isEmpty && base.seemsPath
  | _ => false

section Paths

variable {t u : Text} {c : Char}

/-- Whether the pieces of a text between dots are names. -/
def areNames (t : Text) : Bool :=
  (pieces (· = '.') t).all isName

theorem exists_mem_pieces {separator : Char → Bool} (hc : c ∈ t)
    (hseparator : separator c = false) :
    ∃ piece ∈ pieces separator t, c ∈ piece := by
  induction t with
  | nil => cases hc
  | cons d t ih =>
    obtain ⟨piece, others, hpieces⟩ := List.exists_cons_of_ne_nil (pieces_ne_nil separator t)
    rw [pieces, hpieces]
    rw [hpieces] at ih
    rcases List.mem_cons.1 hc with rfl | hc
    · exact ⟨c :: piece, by simp [hseparator], List.mem_cons_self⟩
    · obtain ⟨found, hfound, hmem⟩ := ih hc
      dsimp only
      split
      · exact ⟨found, List.mem_cons_of_mem _ hfound, hmem⟩
      · rcases List.mem_cons.1 hfound with rfl | hfound
        · exact ⟨d :: found, List.mem_cons_self, List.mem_cons_of_mem _ hmem⟩
        · exact ⟨found, List.mem_cons_of_mem _ hfound, hmem⟩

/-- Names and the dots between them are made of characters that a number goes on with. -/
theorem not_areNames_of_mem (hc : c ∈ t) (hother : isNumberChar c = false) :
    areNames t = false := by
  rw [isNumberChar, Bool.or_eq_false_iff] at hother
  refine Bool.eq_false_iff.2 fun h => ?_
  have hpieces : ∃ piece ∈ pieces (· = '.') t, c ∈ piece := exists_mem_pieces hc hother.2
  obtain ⟨piece, hpiece, hmem⟩ := hpieces
  have hname := List.all_eq_true.1 h piece hpiece
  exact absurd rfl (ne_of_mem_name (n := ⟨piece, hname⟩) hmem hother.1)

theorem areNames_dot (t u : Text) : areNames (t ++ '.' :: u) = (areNames t && areNames u) := by
  rw [areNames, pieces_append (by decide), List.all_append]
  rfl

/-- No name starts with a digit. -/
theorem not_areNames_of_digit (hc : c.isDigit) (t : Text) : areNames (c :: t) = false := by
  obtain ⟨piece, others, hpieces⟩ := List.exists_cons_of_ne_nil (pieces_ne_nil (· = '.') t)
  have hdot : c ≠ '.' := ne_of_isDigit hc (by decide)
  simp [areNames, pieces, hpieces, hdot, isName, (classes_of_digit hc).1]

theorem areNames_name (n : Name) : areNames n.text = true := by
  have hpieces : pieces (· = '.') n.text = [n.text] :=
    pieces_of_no_separator fun c hc => decide_eq_false (ne_of_mem_name hc (by decide))
  simp [areNames, hpieces, n.valid]

end Paths

/-- In white space, if there is any, and in an operator of marks stands a character that is in no
name and in no number. -/
theorem Gap.exists_mark (gap : Gap) (h : gap.text ≠ []) :
    ∃ c ∈ gap.text, isNumberChar c = false := by
  obtain ⟨c, t, htext⟩ := List.exists_cons_of_ne_nil h
  have hmem : c ∈ gap.text := htext ▸ List.mem_cons_self
  exact ⟨c, hmem, isNumberChar_of_white (List.all_eq_true.1 gap.white c hmem)⟩

theorem exists_mark_of_plain {t : Text} (hne : t ≠ []) (h : t.all isPlainMark) :
    ∃ c ∈ t, isNumberChar c = false := by
  obtain ⟨c, t, rfl⟩ := List.exists_cons_of_ne_nil hne
  simp only [List.all_cons, isPlainMark, Bool.and_eq_true, Bool.not_eq_true'] at h
  exact ⟨c, List.mem_cons_self, h.1.2⟩

/-- An expression that ends neither with a name nor with a number has such a character. -/
theorem Code.exists_mark : ∀ e : Code, e.ending = .mark → ∃ c ∈ e.render, isNumberChar c = false
  | .name _, h => nomatch h
  | .number _, h => nomatch h
  | .string s, _ => by
    refine ⟨s.quote, List.mem_cons_self, ?_⟩
    rcases s.isQuote with h | h <;> rw [h] <;> decide
  | .template _ _, _ => ⟨'`', List.mem_cons_self, by decide⟩
  | .member .., h => nomatch h
  | .index .., _ => ⟨'[', by simp [Code.render], by decide⟩
  | .call .., _ => ⟨'(', by simp [Code.render], by decide⟩
  | .group .., _ => ⟨'(', List.mem_cons_self, by decide⟩
  | .before _ _ operand, h => by
    obtain ⟨c, hc, hmark⟩ := operand.exists_mark h
    exact ⟨c, by simp [Code.render, hc], hmark⟩
  | .behind _ _ op, _ => by
    obtain ⟨hne, hplain⟩ := postfixMarks_plain op.text (by simpa using op.known)
    obtain ⟨c, hc, hmark⟩ := exists_mark_of_plain hne hplain
    exact ⟨c, by simp [Code.render, hc], hmark⟩
  | .between _ _ _ _ right, h => by
    obtain ⟨c, hc, hmark⟩ := right.exists_mark h
    exact ⟨c, by simp [Code.render, hc], hmark⟩
  | .conditional .., _ => ⟨'?', by simp [Code.render], by decide⟩
  | .array _, _ => ⟨'[', List.mem_cons_self, by decide⟩
  | .object _, _ => ⟨'{', List.mem_cons_self, by decide⟩
  | .arrow .., _ => ⟨'=', by simp [Code.render, arrowMark], by decide⟩
  | .function .., _ => ⟨'(', by simp [Code.render], by decide⟩

theorem Code.not_areNames_of_mark {e : Code} (h : e.ending = .mark) :
    areNames e.render = false := by
  obtain ⟨c, hc, hmark⟩ := e.exists_mark h
  exact not_areNames_of_mem hc hmark

theorem not_areNames_number (n : Number) : areNames n.text = false := by
  rcases n.text_cases with ⟨c, t, htext, hc⟩ | ⟨c, t, htext, -⟩
  · rw [htext]
    exact not_areNames_of_digit hc t
  · rw [htext]
    exact areNames_dot [] (c :: t)

/-- An operator and its operand are no names: a word that touches what stands behind it touches a
dot before a digit at most. -/
theorem not_areNames_before (op : Operator prefixMarks prefixWords) (gap : Gap) {operand : Text}
    (hparts : gap.parts op.isWord (headIs isNameChar operand)) (hoperand : startsOperand operand) :
    areNames (op.text ++ (gap.text ++ operand)) = false := by
  rcases op.known_cases with ⟨-, hmem⟩ | ⟨hword, -⟩
  · obtain ⟨hne, hplain, -⟩ := prefixMarks_plain _ hmem
    obtain ⟨c, hc, hmark⟩ := exists_mark_of_plain hne hplain
    exact not_areNames_of_mem (List.mem_append_left _ hc) hmark
  · by_cases hgap : gap.text = []
    · rw [hgap, List.nil_append]
      match operand with
      | [] => cases hoperand
      | c :: t =>
        have hname : isNameChar c = false := by
          simpa [Gap.parts, hword, hgap, headIs] using hparts
        by_cases hdot : c = '.'
        · subst hdot
          have hdigit : headIs Char.isDigit t := by simp_all [startsOperand]
          cases t with
          | nil => cases hdigit
          | cons d t => rw [areNames_dot, not_areNames_of_digit hdigit, Bool.and_false]
        · refine not_areNames_of_mem (c := c) (by simp) ?_
          simp [isNumberChar, hname, hdot]
    · obtain ⟨c, hc, hmark⟩ := gap.exists_mark hgap
      exact not_areNames_of_mem (by simp [hc]) hmark

/-- Two operands with an operator between them are no names. -/
theorem not_areNames_between {left : Code} {beforeOp : Gap} (op : Operator binaryMarks binaryWords)
    (hparts : beforeOp.parts (left.ending ≠ .mark) op.isWord) (rest : Text) :
    areNames (left.render ++ (beforeOp.text ++ (op.text ++ rest))) = false := by
  rcases op.known_cases with ⟨-, hmem⟩ | ⟨hword, -⟩
  · obtain ⟨hne, hplain, -⟩ := binaryMarks_plain _ hmem
    obtain ⟨c, hc, hmark⟩ := exists_mark_of_plain hne hplain
    exact not_areNames_of_mem (by simp [hc]) hmark
  · by_cases hending : left.ending = .mark
    · obtain ⟨c, hc, hmark⟩ := left.exists_mark hending
      exact not_areNames_of_mem (List.mem_append_left _ hc) hmark
    · have hgap : beforeOp.text ≠ [] := by simpa [Gap.parts, hending, hword] using hparts
      obtain ⟨c, hc, hmark⟩ := beforeOp.exists_mark hgap
      exact not_areNames_of_mem (by simp [hc]) hmark

/-- Whether a member makes names of names: no question mark and no white space stands by its dot. -/
theorem areNames_member (base : Text) (beforeDot : Gap) (optional : Bool) (behindDot : Gap)
    (n : Name) :
    areNames (base ++ (beforeDot.text ++ (memberMark optional ++ behindDot.text ++ n.text))) =
      (!optional && beforeDot.text.isEmpty && behindDot.text.isEmpty && areNames base) := by
  by_cases hbefore : beforeDot.text = []
  · by_cases hbehind : behindDot.text = []
    · cases optional with
      | true =>
        rw [hbefore, hbehind]
        exact not_areNames_of_mem (c := '?') (by simp [memberMark]) (by decide)
      | false =>
        rw [hbefore, hbehind]
        simpa [memberMark, areNames_name] using areNames_dot base n.text
    · obtain ⟨c, hc, hmark⟩ := behindDot.exists_mark hbehind
      rw [not_areNames_of_mem (by simp [hc]) hmark]
      simp [hbehind]
  · obtain ⟨c, hc, hmark⟩ := beforeDot.exists_mark hbefore
    rw [not_areNames_of_mem (by simp [hc]) hmark]
    simp [hbefore]

/-- The text of an expression is one of names and dots exactly if it is a name with members, with no
white space between them. -/
theorem Code.areNames_render : ∀ e : Code, e.isProper → areNames e.render = e.seemsPath
  | .name n, _ => areNames_name n
  | .number n, _ => not_areNames_number n
  | .string _, _ => not_areNames_of_mark rfl
  | .template _ _, _ => not_areNames_of_mark rfl
  | .member base beforeDot optional behindDot n, hp => by
    simp only [Code.isProper, Bool.and_eq_true] at hp
    rw [Code.render, areNames_member, base.areNames_render hp.1.1]
    rfl
  | .index .., _ => not_areNames_of_mark rfl
  | .call .., _ => not_areNames_of_mark rfl
  | .group .., _ => not_areNames_of_mark rfl
  | .before op gap operand, hp => by
    simp only [Code.isProper, Bool.and_eq_true] at hp
    exact not_areNames_before op gap hp.2 operand.render_startsOperand
  | .behind .., _ => not_areNames_of_mark rfl
  | .between left beforeOp op behindOp right, hp => by
    simp only [Code.isProper, Bool.and_eq_true] at hp
    exact not_areNames_between op hp.1.2 _
  | .conditional .., _ => not_areNames_of_mem (c := '?') (by simp [Code.render]) (by decide)
  | .array _, _ => not_areNames_of_mark rfl
  | .object _, _ => not_areNames_of_mark rfl
  | .arrow .., _ => not_areNames_of_mem (c := '=') (by simp [Code.render, arrowMark]) (by decide)
  | .function .., _ => not_areNames_of_mark rfl

/-- An expression is taken for a path exactly if it is a name with members, with no white space
between them. -/
theorem Code.isMemberPath_render {e : Code} (hproper : e.isProper) :
    isMemberPath e.render = e.seemsPath := by
  have htrim := e.trim_render .none .none
  rw [Gap.none, List.nil_append, List.append_nil] at htrim
  have hne : e.render.isEmpty = false := by
    simpa using ne_nil_of_startsOperand e.render_startsOperand
  rw [isMemberPath, htrim, hne, ← e.areNames_render hproper]
  rfl

/-! ## Expressions that are taken for what they are -/

/-- Whether a name with members starts with an identifier and has no white space by its dots. -/
def Code.hasPlainPath : Code → Bool
  | .name n => n.isIdentifier
  | .member base beforeDot _ behindDot _ =>
    beforeDot.text.isEmpty && behindDot.text.isEmpty && base.hasPlainPath
  | _ => true

/-- Whether the first token of an expression is not misread: no name starts with the word for a
function or is `async` before a space, no function starts another expression, and a space stands
behind the word that makes an arrow asynchronous. -/
def Code.hasPlainLead (e : Code) : Bool :=
  match e.lead .none with
  | .name n gap =>
    !startsWith functionWord n.text && !(n.text = "async".toList && gap.startsWithSpace)
  | .arrow async => e.isFunction && async.all Gap.startsWithSpace
  | .function => e.isFunction
  | _ => true

theorem Code.seemsPath_eq_isPath : ∀ e : Code, e.hasPlainPath → e.seemsPath = e.isPath
  | .name _, h => h.symm
  | .member base _ _ _ _, h => by
    simp only [hasPlainPath, Bool.and_eq_true] at h
    simp only [seemsPath, isPath, h.1.1, h.1.2, base.seemsPath_eq_isPath h.2, Bool.and_true]
  | .number _, _ | .string _, _ | .template .., _ | .index .., _ | .call .., _ | .group .., _
  | .before .., _ | .behind .., _ | .between .., _ | .conditional .., _ | .array _, _ | .object _, _
  | .arrow .., _ | .function .., _ => rfl

/-- A function starts as one. -/
theorem Code.lead_of_isFunction {e : Code} (h : e.isFunction) (gap : Gap) :
    (∃ async, e.lead gap = .arrow async) ∨ e.lead gap = .function := by
  cases e with
  | arrow async parameters beforeArrow behindArrow body => exact .inl ⟨async, rfl⟩
  | function beforeBracket parameters beforeBrace first body last => exact .inr rfl
  | _ => cases h

theorem Code.seemsFunction_eq_isFunction {e : Code} (h : e.hasPlainLead) :
    e.seemsFunction = e.isFunction := by
  by_cases hfunction : e.isFunction
  · rw [hasPlainLead] at h
    rw [hfunction, seemsFunction]
    rcases e.lead_of_isFunction hfunction .none with ⟨async, hlead⟩ | hlead
    · rw [hlead, hfunction] at h
      rw [hlead]
      exact h
    · rw [hlead]
      rfl
  · rw [Bool.not_eq_true] at hfunction
    rw [hasPlainLead, hfunction] at h
    rw [hfunction, seemsFunction]
    cases hlead : e.lead .none with
    | name n gap =>
      simp only [hlead, Bool.and_eq_true, Bool.not_eq_true'] at h
      rw [Lead.seemsFunction, h.1, h.2]
      rfl
    | arrow async =>
      rw [hlead] at h
      cases h
    | function =>
      rw [hlead] at h
      cases h
    | group inner => rfl
    | other => rfl

end ModuleServer.Expression
