import ModuleServer.Proofs.Expression.Brace

/-!
# Places of names

What a name is depends on where it stands: in the place of an operand, behind the dot of a member,
or where an entry of an object starts. White space changes none of these places (`KeptByGaps`), and
the marks between the parts of an expression make them.

* `writes_operand`, `writes_memberName`, `writes_keyName`, `writes_shorthand`: what is written for a
  name in each place.
* `Operator.writes`, `writes_plain`, `writes_ellipsis`: the marks behind which an operand stands.
* `Writes.between`, `Writes.padded`: stretches of text with white space between them.
-/

namespace ModuleServer.Expression

open Text

/-! ## Where an expression ends -/

/-- The text behind an expression does not go on with its last token. -/
def Ending.Stops : Ending → Text → Prop
  | .word, rest => headIs isNameChar rest = false
  | .number, rest => headIs isNumberChar rest = false
  | .mark, _ => True

section Heads

variable {p : Char → Bool} {rest : Text}

/-- Behind white space, or without any, there is no character of a class that has no white one. -/
theorem headIs_gap (gap : Gap) (hwhite : ∀ c, isWhite c → p c = false)
    (hrest : gap.text = [] → headIs p rest = false) : headIs p (gap.text ++ rest) = false := by
  obtain ⟨t, ht⟩ := gap
  cases t with
  | nil => exact hrest rfl
  | cons c t =>
    simp only [List.all_cons, Bool.and_eq_true] at ht
    exact hwhite c ht.1

theorem headIs_isNameChar (h : headIs isNumberChar rest = false) :
    headIs isNameChar rest = false := by
  cases rest with
  | nil => rfl
  | cons c rest =>
    simp only [headIs, isNumberChar, Bool.or_eq_false_iff] at h
    exact h.1

theorem Ending.stops {ending : Ending} (h : headIs isNumberChar rest = false) :
    ending.Stops rest := by
  cases ending with
  | word => exact headIs_isNameChar h
  | number => exact h
  | mark => trivial

theorem isNameChar_of_white {c : Char} (h : isWhite c) : isNameChar c = false := by
  have hnumber := isNumberChar_of_white h
  rw [isNumberChar, Bool.or_eq_false_iff] at hnumber
  exact hnumber.1

theorem headIs_mark {c : Char} (hc : isNumberChar c = false) (t : Text) :
    headIs isNumberChar (c :: t) = false :=
  hc

/-- Behind white space a mark ends what stands before it. -/
theorem headIs_gapMark (gap : Gap) {c : Char} (hc : isNumberChar c = false) (t : Text) :
    headIs isNumberChar (gap.text ++ c :: t) = false :=
  headIs_gap gap (fun _ => isNumberChar_of_white) fun _ => headIs_mark hc t

theorem Ending.stops_of_ne {ending : Ending} {rest : Text} (hne : ending ≠ .number)
    (h : headIs isNameChar rest = false) : ending.Stops rest := by
  cases ending with
  | word => exact h
  | number => exact absurd rfl hne
  | mark => trivial

/-- Between a word and a word there is white space. -/
theorem headIs_parts {gap : Gap} {wordBefore : Bool} {t : Text}
    (hparts : gap.parts wordBefore (headIs isNameChar t)) (hword : wordBefore) :
    headIs isNameChar (gap.text ++ t) = false := by
  refine headIs_gap gap (fun _ => isNameChar_of_white) fun hempty => ?_
  simpa [Gap.parts, hword, hempty] using hparts

theorem headIs_append {p : Char → Bool} {t : Text} (hne : t ≠ []) (rest : Text) :
    headIs p (t ++ rest) = headIs p t := by
  cases t with
  | nil => exact absurd rfl hne
  | cons c t => rfl

theorem firstVisible?_gap (gap : Gap) {c : Char} (hc : isWhite c = false) (t : Text) :
    firstVisible? (gap.text ++ c :: t) = some c := by
  have hstart : headIs isWhite (c :: t) = false := hc
  rw [firstVisible?, trimStart, dropWhile_run gap.white hstart]
  rfl

end Heads

theorem isWhite_of_isNameChar {c : Char} (h : isNameChar c) : isWhite c = false := by
  refine Bool.eq_false_iff.2 fun hc => ?_
  simp [isNameChar_of_white hc] at h

theorem headIs_name {p : Char → Bool} (n : Name) (hp : ∀ c, isNameChar c → p c = false)
    (rest : Text) :
    headIs p (n.text ++ rest) = false ∧ headIs p (n.text.reverse ++ rest) = false := by
  have hnone : ∀ c ∈ n.text, p c = false := fun c hc =>
    hp c (List.all_eq_true.1 (all_isNameChar n) c hc)
  have hreverse : n.text.reverse ≠ [] := by simpa using n.text_ne_nil
  rw [headIs_append n.text_ne_nil, headIs_append hreverse]
  exact ⟨headIs_eq_false hnone, headIs_eq_false fun c hc => hnone c (List.mem_reverse.1 hc)⟩

/-! ## Operators -/

theorem binaryMarks_plain : ∀ t ∈ binaryMarks,
    t ≠ [] ∧ t.all isPlainMark ∧ (t.getLast? = some ',' → t = [',']) := by
  decide

theorem prefixMarks_plain : ∀ t ∈ prefixMarks,
    t ≠ [] ∧ t.all isPlainMark ∧ (t.getLast? = some ',' → t = [',']) := by
  decide

theorem postfixMarks_plain : ∀ t ∈ postfixMarks, t ≠ [] ∧ t.all isPlainMark := by
  decide

theorem binaryWords_keyword : ∀ t ∈ binaryWords, isName t ∧ isKeyword t := by
  decide

theorem prefixWords_keyword : ∀ t ∈ prefixWords, isName t ∧ isKeyword t := by
  decide

section Operators

variable {marks words : List Text}

theorem Operator.known_cases (op : Operator marks words) :
    op.isWord = false ∧ op.text ∈ marks ∨ op.isWord = true ∧ op.text ∈ words := by
  by_cases hword : op.text ∈ words
  · exact .inr ⟨by simpa [isWord] using hword, hword⟩
  · have hmark := (List.mem_append.1 op.known).resolve_right hword
    exact .inl ⟨by simpa [isWord] using hword, hmark⟩

/-- The text of an operator that is made of marks starts with none that a name or a number goes on
with. -/
theorem headIs_marks {t : Text} (hne : t ≠ []) (hmarks : t.all isPlainMark) (rest : Text) :
    headIs isNumberChar (t ++ rest) = false := by
  cases t with
  | nil => exact absurd rfl hne
  | cons c t =>
    simp only [List.all_cons, isPlainMark, Bool.and_eq_true, Bool.not_eq_true'] at hmarks
    exact hmarks.1.2

/-- An operator is copied, and behind it stands an operand. -/
theorem Operator.writes (locals : List Text) (op : Operator marks words)
    (hmarks : ∀ t ∈ marks, t ≠ [] ∧ t.all isPlainMark ∧ (t.getLast? = some ',' → t = [',']))
    (hwords : ∀ t ∈ words, isName t ∧ isKeyword t) {ctx : Context} {rest : Text}
    (hrest : op.isWord → headIs isNameChar rest = false)
    (hcomma : op.text = [','] → ctx.brackets.head? ≠ some '{') :
    Writes locals ctx op.text rest op.text Context.Ready := by
  rcases op.known_cases with ⟨-, hmem⟩ | ⟨hword, hmem⟩
  · obtain ⟨hne, hplain, hlone⟩ := hmarks _ hmem
    refine (writes_marks locals ctx hne hplain rest).mono ?_
    rintro ctx' hbrackets ⟨c, hlast, hgetLast, hc, -⟩
    refine Context.ready_of_last hlast (ne_dot_of_isPlainMark hc) ?_
    rintro (rfl | rfl)
    · exact absurd hc (by decide)
    · rw [hbrackets]
      exact hcomma (hlone hgetLast)
  · obtain ⟨hname, hkey⟩ := hwords _ hmem
    refine (writes_keyword locals ctx hname hkey (hrest hword)).mono ?_
    rintro ctx' - ⟨⟨c, hlast, hc⟩, -⟩
    refine Context.ready_of_last hlast ?_ ?_
    · rintro rfl
      exact absurd hc (by decide)
    · rintro (rfl | rfl) <;> exact absurd hc (by decide)

end Operators

/-! ## Tokens with white space between them -/

/-- A property of contexts that white space keeps. -/
def KeptByGaps (P : Context → Prop) : Prop :=
  ∀ ctx ctx', P ctx → ctx'.brackets = ctx.brackets → ctx'.last = ctx.last → ctx'.dots ≤ ctx.dots →
    P ctx'

theorem keptByGaps_ready : KeptByGaps Context.Ready :=
  fun _ _ h hbrackets hlast _ => h.of_same hbrackets hlast

theorem keptByGaps_true : KeptByGaps fun _ => True :=
  fun _ _ _ _ _ _ => trivial

theorem keptByGaps_dots (p : Prop) : KeptByGaps fun ctx => p → ctx.dots = 0 :=
  fun _ _ h _ _ hdots hp => Nat.le_zero.1 (h hp ▸ hdots)

section Sequences

variable {locals : List Text} {ctx : Context} {t mark u rest out out' : Text}
  {P Q R : Context → Prop}

theorem writes_keptGap (gap : Gap) (hP : KeptByGaps P) (h : P ctx) :
    Writes locals ctx gap.text rest gap.text P :=
  (writes_gap locals ctx gap rest).mono fun ctx' hbrackets hsame =>
    hP ctx ctx' h hbrackets hsame.1 hsame.2

/-- Two stretches of text with a mark between them, each behind white space. -/
theorem Writes.between {beforeMark behindMark : Gap} (hP : KeptByGaps P) (hR : KeptByGaps R)
    (ht : Writes locals ctx t (beforeMark.text ++ (mark ++ (behindMark.text ++ (u ++ rest)))) out P)
    (hmark : ∀ ctx', ctx'.brackets = ctx.brackets → P ctx' →
      Writes locals ctx' mark (behindMark.text ++ (u ++ rest)) mark R)
    (hu : ∀ ctx', ctx'.brackets = ctx.brackets → R ctx' → Writes locals ctx' u rest out' Q) :
    Writes locals ctx (t ++ beforeMark.text ++ mark ++ behindMark.text ++ u) rest
      (out ++ beforeMark.text ++ mark ++ behindMark.text ++ out') Q := by
  have hgap := ht.append fun ctx₁ _ h₁ => writes_keptGap beforeMark hP h₁
  have hmark' := hgap.append fun ctx₂ hbrackets₂ h₂ => hmark ctx₂ hbrackets₂ h₂
  have hgap' := hmark'.append fun ctx₃ _ h₃ => writes_keptGap behindMark hR h₃
  exact hgap'.append fun ctx₄ hbrackets₄ h₄ => hu ctx₄ hbrackets₄ h₄

/-- A stretch of text with white space on both sides. -/
theorem Writes.padded {first last : Gap} (hP : KeptByGaps P) (h : P ctx)
    (ht : ∀ ctx', ctx'.brackets = ctx.brackets → P ctx' →
      Writes locals ctx' t (last.text ++ rest) out fun _ => True) :
    Writes locals ctx (first.text ++ t ++ last.text) rest (first.text ++ out ++ last.text)
      fun _ => True := by
  have hfirst : Writes locals ctx first.text (t ++ (last.text ++ rest)) first.text P :=
    writes_keptGap first hP h
  have ht' := hfirst.append fun ctx₁ hbrackets₁ h₁ => ht ctx₁ hbrackets₁ h₁
  exact ht'.append fun ctx₂ _ _ => (writes_gap locals ctx₂ last rest).mono fun _ _ _ => trivial

/-- Behind a mark that starts no entry there is an operand. -/
theorem writes_plain {c : Char} (hc : isPlainMark c)
    (hcomma : c = ',' → ctx.brackets.head? ≠ some '{') :
    Writes locals ctx [c] rest [c] Context.Ready := by
  have hflat : (isFlat c && !isWhite c) = true := by
    simp only [isPlainMark, Bool.and_eq_true] at hc ⊢
    exact hc.1
  refine (writes_mark locals ctx hflat rest).mono ?_
  rintro ctx' hbrackets ⟨hlast, -⟩
  refine Context.ready_of_last hlast (ne_dot_of_isPlainMark hc) ?_
  rintro (rfl | rfl)
  · exact absurd hc (by decide)
  · rw [hbrackets]
    exact hcomma rfl

end Sequences

/-! ## Names in their places -/

section Names

variable {locals : List Text} {ctx : Context} {rest : Text}

/-- In the place of an operand a name is one of the context if it is free. -/
theorem writes_operand (n : Name) (hctx : ctx.Operand) (hrest : headIs isNameChar rest = false) :
    Writes locals ctx n.text rest ((Expr.name n).resolve locals).render
      fun ctx' => ctx'.dots = 0 := by
  have hname := writes_name locals ctx n hrest
  have hrole : ctx.role locals n.text (firstVisible? rest) =
      if n.isFree locals then .free else .bound := by
    cases hfree : n.isFree locals <;> simp_all [Name.isFree, Context.role, hctx.1, hctx.2]
  rw [hrole] at hname
  unfold Expr.resolve
  split at hname
  · rename_i hfree
    rw [if_pos hfree]
    exact hname.mono fun _ _ h => h.2
  · rename_i hbound
    rw [if_neg hbound]
    exact hname.mono fun _ _ h => h.2

/-- Behind a dot that ends no spread a name is one of a member. -/
theorem writes_memberName (n : Name) (hlast : ctx.last = some '.') (hdots : ctx.dots < 3)
    (hrest : headIs isNameChar rest = false) :
    Writes locals ctx n.text rest n.text fun ctx' => ctx'.dots = 0 := by
  have hname := writes_name locals ctx n hrest
  have hrole : ctx.role locals n.text (firstVisible? rest) = .bound := by
    simp [Context.role, Context.afterDot, hlast, hdots]
  rw [hrole] at hname
  exact hname.mono fun _ _ h => h.2

/-- An entry of an object may start here. -/
def AtEntry (ctx : Context) : Prop :=
  ctx.brackets.head? = some '{' ∧ (ctx.last = some '{' ∨ ctx.last = some ',')

theorem keptByGaps_atEntry : KeptByGaps AtEntry := by
  rintro ctx ctx' ⟨hhead, hlast⟩ hbrackets hsame -
  refine ⟨by rwa [hbrackets], ?_⟩
  rwa [hsame]

theorem AtEntry.places (h : AtEntry ctx) : ctx.afterDot = false ∧ ctx.atKey = true := by
  obtain ⟨hhead, hlast⟩ := h
  rcases hlast with hlast | hlast <;> simp [Context.afterDot, Context.atKey, hhead, hlast]

/-- Where an entry starts, a name before a colon is a key. -/
theorem writes_keyName (n : Name) (hctx : AtEntry ctx) (hrest : headIs isNameChar rest = false)
    (hcolon : firstVisible? rest = some ':') :
    Writes locals ctx n.text rest n.text fun _ => True := by
  have hname := writes_name locals ctx n hrest
  have hrole : ctx.role locals n.text (firstVisible? rest) = .bound := by
    simp [Context.role, hctx.places.2, hcolon]
  rw [hrole] at hname
  exact hname.mono fun _ _ _ => trivial

/-- Where an entry starts, a name before a comma or the end of the object is key and value. -/
theorem writes_shorthand (n : Name) (hctx : AtEntry ctx) (hrest : headIs isNameChar rest = false)
    (hend : firstVisible? rest = some ',' ∨ firstVisible? rest = some '}') :
    Writes locals ctx n.text rest ((Entry.shorthand n).resolve locals).render fun _ => True := by
  have hname := writes_name locals ctx n hrest
  have hrole : ctx.role locals n.text (firstVisible? rest) =
      if n.isFree locals then .entry else .bound := by
    obtain ⟨hdot, hkey⟩ := hctx.places
    cases hfree : n.isFree locals
    · simp_all [Name.isFree, Context.role]
    · rcases hend with hend | hend <;> simp_all [Name.isFree, Context.role]
  rw [hrole] at hname
  unfold Entry.resolve
  split at hname
  · rename_i hfree
    have hrender : (Entry.named n .none .space n.inContext).render =
        (Piece.name n.text .entry).output := by
      simp [Entry.render, Name.inContext, Expr.render, Gap.none, Gap.space, Name.context,
        memberMark, Piece.output]
    rw [if_pos hfree, hrender]
    exact hname.mono fun _ _ _ => trivial
  · rename_i hbound
    rw [if_neg hbound]
    exact hname.mono fun _ _ _ => trivial

/-- Behind the dots of a spread there is an operand. -/
theorem writes_ellipsis : Writes locals ctx ellipsis rest ellipsis Context.Operand := by
  have hone : ∀ ctx₀ rest₀, Writes locals ctx₀ ['.'] rest₀ ['.']
      fun ctx' => ctx'.last = some '.' ∧ ctx'.dots = ctx₀.dots + 1 :=
    fun ctx₀ rest₀ => writes_mark locals ctx₀ (c := '.') (by decide) rest₀
  have htwo : Writes locals ctx ['.', '.'] ('.' :: rest) ['.', '.'] fun ctx' => 2 ≤ ctx'.dots :=
    (hone ctx ('.' :: '.' :: rest)).append (u := ['.']) fun ctx₁ _ h₁ =>
      (hone ctx₁ _).mono fun ctx₂ _ h₂ => by omega
  refine htwo.append (u := ['.']) fun ctx₂ _ h₂ => (hone ctx₂ rest).mono ?_
  rintro ctx₃ - ⟨hlast, hdots⟩
  refine ⟨?_, ?_⟩
  · simp only [Context.afterDot, hlast, decide_true, Bool.true_and, decide_eq_false_iff_not]
    omega
  · simp [Context.atKey, hlast]

theorem writes_memberMark (optional : Bool) (hctx : ctx.dots = 0) :
    Writes locals ctx (memberMark optional) rest (memberMark optional)
      fun ctx' => ctx'.last = some '.' ∧ ctx'.dots < 3 := by
  have hdot : ∀ ctx₀, ctx₀.dots = 0 → Writes locals ctx₀ ['.'] rest ['.']
      fun ctx' => ctx'.last = some '.' ∧ ctx'.dots < 3 := by
    intro ctx₀ h₀
    refine (writes_mark locals ctx₀ (c := '.') (by decide) rest).mono ?_
    rintro ctx' - ⟨hlast, hdots⟩
    refine ⟨hlast, ?_⟩
    simp only [if_true] at hdots
    omega
  cases optional with
  | false => exact hdot ctx hctx
  | true =>
    exact (writes_mark locals ctx (c := '?') (by decide) ('.' :: rest)).append (u := ['.'])
      fun ctx₁ _ h₁ => hdot ctx₁ h₁.2

end Names

end ModuleServer.Expression
