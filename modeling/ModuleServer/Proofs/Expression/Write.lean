import ModuleServer.Expression.Scope
import ModuleServer.Proofs.Expression.Syntax
import ModuleServer.Proofs.Text.Run

/-!
# What the scan writes for a token

The scan of an expression goes over its text with a context. `Writes` says of a stretch of text what
is written for it, that it leaves the open brackets as they were, and what is known behind it;
stretches are put together by `Writes.append`, and `Writes.enclosed` puts brackets around one.

* `writes_gap`, `writes_marks`, `writes_quoted`, `writes_number`: these tokens are copied.
* `writes_name`: a name is written as its role says.
* `write_hole`: a hole of a template literal is written as an expression of its own.
-/

namespace ModuleServer.Expression

open Text

/-! ## Classes of characters -/

/-- Characters that the scan copies one by one: they start no string, no name and no number. -/
def isCopied (c : Char) : Bool :=
  !(c = '\'' || c = '"' || c = '`' || isNameStart c || c.isDigit)

/-- Characters that are copied and open and close nothing. -/
def isFlat (c : Char) : Bool :=
  isCopied c && !(c = '(' || c = '[' || c = '{' || c = ')' || c = ']' || c = '}')

/-- Characters that a number goes on with. -/
def isNumberChar (c : Char) : Bool :=
  isNameChar c || c = '.'

theorem isNumberChar_of_white {c : Char} (h : isWhite c) : isNumberChar c = false :=
  forall_white (P := fun c => isNumberChar c = false) (by decide +kernel) h

theorem isFlat_of_white {c : Char} (h : isWhite c) : isFlat c :=
  forall_white (P := fun c => isFlat c = true) (by decide +kernel) h

theorem classes_of_digit {c : Char} (h : c.isDigit) :
    isNameStart c = false ∧ isNameChar c = true ∧ isCopied c = false := by
  have hcodes : ∀ n < 58, 48 ≤ n → isNameStart (Char.ofNat n) = false ∧
      isNameChar (Char.ofNat n) = true ∧ isCopied (Char.ofNat n) = false := by decide
  have hcode : 48 ≤ c.toNat ∧ c.toNat ≤ 57 := by
    simpa [Char.isDigit, UInt32.le_iff_toNat_le] using h
  have hc := hcodes c.toNat (by omega) hcode.1
  rwa [Char.ofNat_toNat] at hc

/-- The first character of a name is not one of those that are tested for before names. -/
theorem ne_quote_of_isNameStart {c : Char} (h : isNameStart c) :
    ¬(c = '\'' ∨ c = '"') ∧ c ≠ '`' := by
  refine ⟨?_, ?_⟩
  · rintro (rfl | rfl) <;> exact absurd h (by decide)
  · rintro rfl
    exact absurd h (by decide)

theorem all_isNameChar (n : Name) : n.text.all isNameChar := by
  obtain ⟨t, hvalid⟩ := n
  cases t with
  | nil => rfl
  | cons c t =>
    simp only [isName, Bool.and_eq_true] at hvalid
    simp [isNameChar_of_isNameStart hvalid.1, hvalid.2]

/-- A character that is none of names does not occur in one. -/
theorem ne_of_mem_name {n : Name} {c d : Char} (hc : c ∈ n.text) (hd : isNameChar d = false) :
    c ≠ d :=
  ne_of_mem_run (all_isNameChar n) hd c hc

/-! ## Steps of the scan -/

/-- What is written for a text. -/
def write (locals : List Text) (mode : Mode) (t : Text) : Text :=
  (scan locals mode t).flatMap Piece.output

section Steps

variable (locals : List Text) (ctx : Context)

theorem write_nil : write locals (.code ctx) [] = [] := by
  rw [write, scan]
  rfl

theorem write_copied {c : Char} (h : isCopied c) (t : Text) :
    write locals (.code ctx) (c :: t) = c :: write locals (.code (ctx.pass c)) t := by
  simp only [isCopied, Bool.not_eq_true', Bool.or_eq_false_iff, decide_eq_false_iff_not] at h
  obtain ⟨⟨⟨⟨hsingle, hdouble⟩, htick⟩, hname⟩, hdigit⟩ := h
  rw [write, scan, if_neg (by rintro (h | h) <;> contradiction), if_neg htick,
    if_neg (by simp [hname]), if_neg (by simp [hdigit])]
  rfl

theorem write_quote {c : Char} (h : c = '\'' ∨ c = '"') (t : Text) :
    write locals (.code ctx) (c :: t) = c :: (readString c t).1 ++
      write locals (.code (ctx.seeAll (c :: (readString c t).1))) (readString c t).2 := by
  rw [write, scan, if_pos h]
  rfl

theorem write_tick (t : Text) :
    write locals (.code ctx) ('`' :: t) = '`' :: write locals (.literal (ctx.see '`')) t := by
  rw [write, scan, if_neg (by decide), if_pos rfl]
  rfl

theorem write_nameStart {c : Char} (h : isNameStart c) (t : Text) :
    write locals (.code ctx) (c :: t) =
      (Piece.name (c :: t.takeWhile isNameChar) (ctx.role locals (c :: t.takeWhile isNameChar)
        (firstVisible? (t.dropWhile isNameChar)))).output ++
      write locals (.code (ctx.named ((c :: t.takeWhile isNameChar).getLastD c)))
        (t.dropWhile isNameChar) := by
  obtain ⟨hquote, htick⟩ := ne_quote_of_isNameStart h
  rw [write, scan, if_neg hquote, if_neg htick, if_pos h]
  rfl

theorem write_digit {c : Char} (h : c.isDigit) (t : Text) :
    write locals (.code ctx) (c :: t) = c :: t.takeWhile isNumberChar ++
      write locals (.code (ctx.seeAll (c :: t.takeWhile isNumberChar)))
        (t.dropWhile isNumberChar) := by
  have hname := (classes_of_digit h).1
  have hquote : ¬(c = '\'' ∨ c = '"') := by
    rintro (rfl | rfl) <;> exact absurd h (by decide)
  have htick : c ≠ '`' := by
    rintro rfl
    exact absurd h (by decide)
  rw [write, scan, if_neg hquote, if_neg htick, if_neg (by simp [hname]), if_pos h]
  rfl

theorem write_escape (c : Char) (t : Text) :
    write locals (.literal ctx) ('\\' :: c :: t) =
      '\\' :: c :: write locals (.literal ((ctx.see '\\').see c)) t := by
  rw [write, scan]
  rfl

theorem write_closeTick (t : Text) :
    write locals (.literal ctx) ('`' :: t) = '`' :: write locals (.code (ctx.see '`')) t := by
  rw [write, scan, if_pos rfl]
  · rfl
  · simp
  · simp

theorem write_literal {c : Char} {t : Text} (hescape : c ≠ '\\') (htick : c ≠ '`')
    (hhole : ¬(c = '$' ∧ t.head? = some '{')) :
    write locals (.literal ctx) (c :: t) = c :: write locals (.literal (ctx.see c)) t := by
  rw [write, scan, if_neg htick]
  · rfl
  · rintro d r rfl rfl
    exact hescape rfl
  · rintro r rfl rfl
    exact hhole ⟨rfl, rfl⟩

/-- A hole is written as an expression of its own, and the literal goes on behind its brace. -/
theorem write_hole {t inner rest : Text} (h : readHole 0 t = (inner, '}' :: rest)) :
    write locals (.literal ctx) ('$' :: '{' :: t) =
      '$' :: '{' :: (write locals (.code .start) inner ++
        '}' :: write locals (.literal (ctx.see '}')) rest) := by
  have h1 : (readHole 0 t).1 = inner := by rw [h]
  have h2 : (readHole 0 t).2 = '}' :: rest := by rw [h]
  rw [write, scan]
  simp only [h1, List.flatMap_cons, List.flatMap_append, Piece.output, List.cons_append,
    List.nil_append, write, List.cons.injEq, true_and, List.append_cancel_left_eq]
  split
  · rename_i hnil
    simp [h2] at hnil
  · rename_i brace behind hcons
    rw [h2] at hcons
    obtain ⟨rfl, rfl⟩ := List.cons.inj hcons
    rfl

end Steps

/-! ## What is known behind a text -/

namespace Context

variable {ctx ctx' : Context}

@[simp] theorem see_brackets (ctx : Context) (c : Char) : (ctx.see c).brackets = ctx.brackets :=
  rfl

theorem seeAll_concat (ctx : Context) (t : Text) (c : Char) :
    ctx.seeAll (t ++ [c]) = (ctx.seeAll t).see c := by
  simp only [seeAll, List.foldl_append, List.foldl_cons, List.foldl_nil]

@[simp] theorem seeAll_brackets (ctx : Context) (t : Text) :
    (ctx.seeAll t).brackets = ctx.brackets := by
  induction t generalizing ctx with
  | nil => rfl
  | cons c t ih => exact ih (ctx.see c)

theorem pass_flat (ctx : Context) {c : Char} (h : isFlat c) : ctx.pass c = ctx.see c := by
  simp only [isFlat, Bool.and_eq_true, Bool.not_eq_true', Bool.or_eq_false_iff,
    decide_eq_false_iff_not] at h
  obtain ⟨-, ⟨⟨⟨⟨h1, h2⟩, h3⟩, h4⟩, h5⟩, h6⟩ := h
  simp [pass, see, h1, h2, h3, h4, h5, h6]

/-- A name here is neither the name of a member nor the key of an entry. -/
def Operand (ctx : Context) : Prop :=
  ctx.afterDot = false ∧ ctx.atKey = false

/-- An operand may stand here, with white space before it or without. -/
def Ready (ctx : Context) : Prop :=
  ctx.last ≠ some '.' ∧ ctx.atKey = false

theorem ready_start : start.Ready :=
  ⟨by decide, by decide⟩

theorem Ready.operand (h : ctx.Ready) : ctx.Operand := by
  refine ⟨?_, h.2⟩
  simp [afterDot, h.1]

theorem Ready.of_same (h : ctx.Ready) (hbrackets : ctx'.brackets = ctx.brackets)
    (hlast : ctx'.last = ctx.last) : ctx'.Ready := by
  obtain ⟨hdot, hkey⟩ := h
  refine ⟨by rwa [hlast], ?_⟩
  rwa [atKey, hbrackets, hlast]

/-- Behind a mark that is no dot an operand may stand, unless the mark starts an entry. -/
theorem ready_of_last {c : Char} (hlast : ctx.last = some c) (hdot : c ≠ '.')
    (hkey : c = '{' ∨ c = ',' → ctx.brackets.head? ≠ some '{') : ctx.Ready := by
  refine ⟨by simp [hlast, hdot], ?_⟩
  by_cases hc : c = '{' ∨ c = ','
  · simp [atKey, hkey hc]
  · simp only [not_or] at hc
    simp [atKey, hlast, hc]

end Context

/-! ## Stretches of text -/

/-- For the text `t`, with `rest` behind it, the scan writes `out`; it leaves the open brackets as
they were, and `behind` holds of what it knows then. -/
def Writes (locals : List Text) (ctx : Context) (t rest out : Text) (behind : Context → Prop) :
    Prop :=
  ∃ ctx', ctx'.brackets = ctx.brackets ∧ behind ctx' ∧
    write locals (.code ctx) (t ++ rest) = out ++ write locals (.code ctx') rest

section Stretches

variable {locals : List Text} {ctx : Context} {t u rest out out' : Text} {P Q : Context → Prop}

theorem Writes.mono (h : Writes locals ctx t rest out P)
    (hPQ : ∀ ctx', ctx'.brackets = ctx.brackets → P ctx' → Q ctx') :
    Writes locals ctx t rest out Q := by
  obtain ⟨ctx', hbrackets, hP, heq⟩ := h
  exact ⟨ctx', hbrackets, hPQ ctx' hbrackets hP, heq⟩

theorem Writes.append (h : Writes locals ctx t (u ++ rest) out P)
    (hnext : ∀ ctx', ctx'.brackets = ctx.brackets → P ctx' → Writes locals ctx' u rest out' Q) :
    Writes locals ctx (t ++ u) rest (out ++ out') Q := by
  obtain ⟨ctx₁, hbrackets₁, hP, heq₁⟩ := h
  obtain ⟨ctx₂, hbrackets₂, hQ, heq₂⟩ := hnext ctx₁ hbrackets₁ hP
  refine ⟨ctx₂, hbrackets₂.trans hbrackets₁, hQ, ?_⟩
  rw [List.append_assoc, heq₁, heq₂, List.append_assoc]

/-- Brackets around a stretch of text. -/
theorem Writes.enclosed {opening closing : Char}
    (hopening : opening ∈ ['(', '[', '{']) (hclosing : closing ∈ [')', ']', '}'])
    (h : ∀ ctx', ctx'.brackets = opening :: ctx.brackets → ctx'.last = some opening →
      Writes locals ctx' t (closing :: rest) out fun _ => True) :
    Writes locals ctx (opening :: (t ++ [closing])) rest (opening :: (out ++ [closing]))
      fun ctx' => ctx'.dots = 0 := by
  have hopen : isCopied opening ∧ (ctx.pass opening).brackets = opening :: ctx.brackets ∧
      (ctx.pass opening).last = some opening := by
    simp only [List.mem_cons, List.not_mem_nil, or_false] at hopening
    rcases hopening with rfl | rfl | rfl <;> exact ⟨by decide, rfl, rfl⟩
  obtain ⟨ctx₁, hbrackets, -, heq⟩ := h _ hopen.2.1 hopen.2.2
  have hclose : isCopied closing ∧ (ctx₁.pass closing).brackets = ctx₁.brackets.tail ∧
      (ctx₁.pass closing).dots = 0 := by
    simp only [List.mem_cons, List.not_mem_nil, or_false] at hclosing
    rcases hclosing with rfl | rfl | rfl <;> exact ⟨by decide, rfl, rfl⟩
  refine ⟨ctx₁.pass closing, ?_, hclose.2.2, ?_⟩
  · rw [hclose.2.1, hbrackets, hopen.2.1, List.tail_cons]
  · rw [List.cons_append, write_copied _ _ hopen.1, List.append_assoc, List.singleton_append, heq,
      write_copied _ _ hclose.1]
    simp

end Stretches

/-! ## Tokens -/

section Tokens

variable (locals : List Text) (ctx : Context)

theorem writes_gap (gap : Gap) (rest : Text) :
    Writes locals ctx gap.text rest gap.text fun ctx' =>
      ctx'.last = ctx.last ∧ ctx'.dots ≤ ctx.dots := by
  obtain ⟨t, hwhite⟩ := gap
  dsimp only
  induction t generalizing ctx with
  | nil => exact ⟨ctx, rfl, ⟨rfl, Nat.le_refl _⟩, rfl⟩
  | cons c t ih =>
    simp only [List.all_cons, Bool.and_eq_true] at hwhite
    obtain ⟨hc, ht⟩ := hwhite
    have hflat := isFlat_of_white hc
    have hcopied : isCopied c := by
      simp only [isFlat, Bool.and_eq_true] at hflat
      exact hflat.1
    have hdot : c ≠ '.' := by
      rintro rfl
      exact absurd hc (by decide)
    obtain ⟨ctx', hbrackets, ⟨hlast, hdots⟩, heq⟩ := ih (ctx.see c) ht
    refine ⟨ctx', hbrackets, ⟨?_, ?_⟩, ?_⟩
    · simp [hlast, Context.see, hc]
    · simp only [Context.see, hdot, if_false] at hdots
      omega
    · rw [List.cons_append, write_copied _ _ hcopied, Context.pass_flat _ hflat, heq]
      rfl

/-- Marks that are copied, open and close nothing, and are neither white nor go on from a number. -/
def isPlainMark (c : Char) : Bool :=
  isFlat c && !isWhite c && !isNumberChar c

theorem ne_dot_of_isPlainMark {c : Char} (h : isPlainMark c) : c ≠ '.' := by
  rintro rfl
  exact absurd h (by decide)

theorem writes_mark {c : Char} (h : isFlat c && !isWhite c) (rest : Text) :
    Writes locals ctx [c] rest [c] fun ctx' =>
      ctx'.last = some c ∧ ctx'.dots = if c = '.' then ctx.dots + 1 else 0 := by
  simp only [Bool.and_eq_true, Bool.not_eq_true'] at h
  obtain ⟨hflat, hwhite⟩ := h
  have hcopied : isCopied c := by
    simp only [isFlat, Bool.and_eq_true] at hflat
    exact hflat.1
  refine ⟨ctx.see c, rfl, ⟨by simp [Context.see, hwhite], rfl⟩, ?_⟩
  rw [List.singleton_append, write_copied _ _ hcopied, Context.pass_flat _ hflat]
  rfl

theorem writes_marks {t : Text} (hne : t ≠ []) (h : t.all isPlainMark) (rest : Text) :
    Writes locals ctx t rest t fun ctx' =>
      ∃ c, ctx'.last = some c ∧ t.getLast? = some c ∧ isPlainMark c ∧ ctx'.dots = 0 := by
  induction t generalizing ctx with
  | nil => exact absurd rfl hne
  | cons c t ih =>
    simp only [List.all_cons, Bool.and_eq_true] at h
    obtain ⟨hc, ht⟩ := h
    have hflat : (isFlat c && !isWhite c) = true := by
      simp only [isPlainMark, Bool.and_eq_true] at hc ⊢
      exact hc.1
    have hmark := writes_mark locals ctx hflat (t ++ rest)
    simp only [ne_dot_of_isPlainMark hc, if_false] at hmark
    cases t with
    | nil => exact hmark.mono fun ctx' _ hctx' => ⟨c, hctx'.1, rfl, hc, hctx'.2⟩
    | cons d t =>
      refine hmark.append (u := d :: t) fun ctx' _ _ => ?_
      refine (ih ctx' (List.cons_ne_nil d t) ht).mono ?_
      rintro ctx'' - ⟨e, hlast, hgetLast, he⟩
      exact ⟨e, hlast, by rw [List.getLast?_cons_cons]; exact hgetLast, he⟩

/-- A name is written as its role says. -/
theorem writes_name (n : Name) {rest : Text} (hrest : headIs isNameChar rest = false) :
    Writes locals ctx n.text rest
      (Piece.name n.text (ctx.role locals n.text (firstVisible? rest))).output fun ctx' =>
        (∃ c, ctx'.last = some c ∧ isNameChar c) ∧ ctx'.dots = 0 := by
  obtain ⟨t, hvalid⟩ := n
  dsimp only
  cases t with
  | nil => simp [isName] at hvalid
  | cons c t =>
    simp only [isName, Bool.and_eq_true, List.all_eq_true] at hvalid
    obtain ⟨hstart, hall⟩ := hvalid
    have hrun : t.all isNameChar := List.all_eq_true.2 hall
    refine ⟨ctx.named ((c :: t).getLastD c), rfl, ⟨⟨_, rfl, ?_⟩, rfl⟩, ?_⟩
    · rw [List.getLastD_cons, List.getLastD_eq_getLast?]
      cases hlast : t.getLast? with
      | none => exact isNameChar_of_isNameStart hstart
      | some d => exact hall d (List.mem_of_getLast? hlast)
    · rw [List.cons_append, write_nameStart _ _ hstart, takeWhile_run hrun hrest,
        dropWhile_run hrun hrest]

/-- A word of the language is copied wherever it stands. -/
theorem writes_keyword {t : Text} (hname : isName t) (hkey : isKeyword t) {rest : Text}
    (hrest : headIs isNameChar rest = false) :
    Writes locals ctx t rest t fun ctx' =>
      (∃ c, ctx'.last = some c ∧ isNameChar c) ∧ ctx'.dots = 0 := by
  have hwrites := writes_name locals ctx ⟨t, hname⟩ hrest
  have hrole : ctx.role locals t (firstVisible? rest) = .bound := by
    simp [Context.role, hkey]
  simp only [hrole, Piece.output] at hwrites
  exact hwrites

/-- A string is read up to its own quote. -/
theorem readString_glyphs {quote : Char} (hquote : quote ≠ '\\') {glyphs : List Glyph}
    (h : glyphs.all (Glyph.isInside quote)) (rest : Text) :
    readString quote (glyphs.flatMap Glyph.text ++ quote :: rest) =
      (glyphs.flatMap Glyph.text ++ [quote], rest) := by
  induction glyphs with
  | nil =>
    simp only [List.flatMap_nil, List.nil_append]
    rw [readString, if_pos rfl]
    rintro c t rfl
    exact absurd rfl hquote
  | cons g glyphs ih =>
    simp only [List.all_cons, Bool.and_eq_true] at h
    obtain ⟨hg, hglyphs⟩ := h
    cases g with
    | plain c =>
      simp only [Glyph.isInside, Bool.and_eq_true, decide_eq_true_eq] at hg
      simp only [List.flatMap_cons, Glyph.text, List.cons_append, List.nil_append]
      rw [readString, if_neg hg.1, ih hglyphs]
      rintro d t rfl
      exact absurd rfl hg.2
    | escaped c =>
      simp only [List.flatMap_cons, Glyph.text, List.cons_append, List.nil_append]
      rw [readString, ih hglyphs]

theorem writes_quoted (s : Quoted) (rest : Text) :
    Writes locals ctx s.text rest s.text fun ctx' => ctx'.dots = 0 := by
  obtain ⟨quote, glyphs, hquote, hinside⟩ := s
  have hescape : quote ≠ '\\' := by
    rintro rfl
    simp at hquote
  have hdot : quote ≠ '.' := by
    rintro rfl
    simp at hquote
  have hread := readString_glyphs hescape hinside rest
  refine ⟨ctx.seeAll (quote :: (glyphs.flatMap Glyph.text ++ [quote])), ?_, ?_, ?_⟩
  · exact Context.seeAll_brackets ..
  · rw [← List.cons_append, Context.seeAll_concat]
    simp [Context.see, hdot]
  · simp only [Quoted.text, List.cons_append, List.append_assoc, List.nil_append]
    rw [write_quote _ _ hquote, hread]
    simp

/-- The text of a template literal between its holes is copied. -/
theorem write_chunk (chunk : Chunk) {rest : Text} (hrest : rest.head? ≠ some '{') :
    ∃ ctx', ctx'.brackets = ctx.brackets ∧
      write locals (.literal ctx) (chunk.text ++ rest) =
        chunk.text ++ write locals (.literal ctx') rest := by
  obtain ⟨glyphs, hvalid⟩ := chunk
  simp only [Chunk.text]
  induction glyphs generalizing ctx with
  | nil => exact ⟨ctx, rfl, rfl⟩
  | cons g glyphs ih =>
    simp only [isTemplateText, Bool.and_eq_true, Bool.not_eq_true', Bool.and_eq_false_iff,
      decide_eq_false_iff_not] at hvalid
    obtain ⟨⟨hg, hhole⟩, hglyphs⟩ := hvalid
    cases g with
    | plain c =>
      simp only [Glyph.isInside, Bool.and_eq_true, decide_eq_true_eq] at hg
      obtain ⟨ctx', hbrackets, heq⟩ := ih (ctx.see c) hglyphs
      refine ⟨ctx', hbrackets, ?_⟩
      simp only [List.flatMap_cons, Glyph.text, List.cons_append, List.nil_append]
      rw [write_literal _ _ hg.2 hg.1, heq]
      rintro ⟨rfl, hbrace⟩
      cases glyphs with
      | nil => exact hrest hbrace
      | cons g' glyphs =>
        cases g' with
        | plain d => simp_all [Glyph.text]
        | escaped d => simp [Glyph.text] at hbrace
    | escaped c =>
      obtain ⟨ctx', hbrackets, heq⟩ := ih ((ctx.see '\\').see c) hglyphs
      refine ⟨ctx', hbrackets, ?_⟩
      simp only [List.flatMap_cons, Glyph.text, List.cons_append, List.nil_append]
      rw [write_escape, heq]

/-! ## Numbers -/

/-- A run of digits is copied with all that a number goes on with. -/
theorem writes_digits {c : Char} (hc : c.isDigit) {t rest : Text} (ht : t.all isNumberChar)
    (hrest : headIs isNumberChar rest = false) :
    Writes locals ctx (c :: t) rest (c :: t) fun _ => True := by
  refine ⟨ctx.seeAll (c :: t), Context.seeAll_brackets .., trivial, ?_⟩
  rw [List.cons_append, write_digit _ _ hc, takeWhile_run ht hrest, dropWhile_run ht hrest]

theorem all_isNumberChar {t : Text} (h : t.all Char.isDigit) : t.all isNumberChar := by
  rw [List.all_eq_true] at h ⊢
  intro c hc
  simp [isNumberChar, (classes_of_digit (h c hc)).2.1]

/-- Digits and what goes on from them are copied, and so is the exponent behind them: without a sign
it goes on from them too, with one it is a sign and digits again. -/
theorem writes_scaled (n : Number) {c : Char} (hc : c.isDigit) {t rest : Text}
    (ht : t.all isNumberChar) (hrest : headIs isNumberChar rest = false) :
    Writes locals ctx (c :: t ++ n.exponentText) rest (c :: t ++ n.exponentText)
      fun _ => True := by
  have hscaled := n.scaled
  unfold Number.exponentText
  rcases hexponent : n.exponent with _ | ⟨mark, sign, power⟩
  · simpa using writes_digits locals ctx hc ht hrest
  · simp only [hexponent, Option.all_some, Bool.and_eq_true, Bool.not_eq_true',
      List.contains_iff_mem, List.mem_cons, List.not_mem_nil, or_false] at hscaled
    obtain ⟨⟨⟨hmark, hsign⟩, hne⟩, hpower⟩ := hscaled
    have hmark : isNumberChar mark := by
      rcases hmark with rfl | rfl <;> decide
    cases sign with
    | none =>
      refine writes_digits locals ctx hc (t := t ++ mark :: power) ?_ hrest
      simp [ht, hmark, all_isNumberChar hpower]
    | some sign =>
      have hsign : isNumberChar sign = false ∧ (isFlat sign && !isWhite sign) = true := by
        simp only [Option.all_some, List.contains_iff_mem, List.mem_cons, List.not_mem_nil,
          or_false] at hsign
        rcases hsign with rfl | rfl <;> decide
      obtain ⟨d, power, rfl⟩ : ∃ d p, power = d :: p := by
        cases power with
        | nil => simp at hne
        | cons d p => exact ⟨d, p, rfl⟩
      simp only [List.all_cons, Bool.and_eq_true] at hpower
      have hrun : (t ++ [mark]).all isNumberChar := by simp [ht, hmark]
      have hbehind : headIs isNumberChar ([sign] ++ (d :: power) ++ rest) = false := hsign.1
      have hmantissa := writes_digits locals ctx hc hrun hbehind
      have hall := Writes.append (u := [sign] ++ (d :: power)) hmantissa fun ctx₁ _ _ =>
        Writes.append (writes_mark locals ctx₁ hsign.2 _) fun ctx₂ _ _ =>
          writes_digits locals ctx₂ hpower.1 (all_isNumberChar hpower.2) hrest
      simpa using hall

theorem writes_number (n : Number) {rest : Text} (hrest : headIs isNumberChar rest = false) :
    Writes locals ctx n.text rest n.text fun _ => True := by
  have hdigits := n.digits
  have hsome := n.someDigit
  unfold Number.text
  cases hwhole : n.whole with
  | cons c w =>
    simp only [hwhole, List.cons_append, List.all_cons, Bool.and_eq_true,
      List.all_append] at hdigits
    obtain ⟨hc, hw, hfraction⟩ := hdigits
    cases hf : n.fraction with
    | none =>
      have := writes_scaled locals ctx n hc (all_isNumberChar hw) hrest
      simpa using this
    | some f =>
      rw [hf] at hfraction
      have hrun : (w ++ '.' :: f).all isNumberChar := by
        have hf := all_isNumberChar hfraction
        simp only [Option.getD_some] at hf
        simp [all_isNumberChar hw, hf, isNumberChar]
      have := writes_scaled locals ctx n hc hrun hrest
      simpa using this
  | nil =>
    -- without digits before it the dot is a mark of its own
    cases hf : n.fraction with
    | none => simp [hwhole, hf] at hsome
    | some f =>
      cases f with
      | nil => simp [hwhole, hf] at hsome
      | cons c f =>
        simp only [hwhole, hf, List.nil_append, Option.getD_some, List.all_cons,
          Bool.and_eq_true] at hdigits
        have hall := (writes_mark locals ctx (c := '.') (by decide) _).append fun ctx₁ _ _ =>
          writes_scaled locals ctx₁ n hdigits.1 (all_isNumberChar hdigits.2) hrest
        simpa using hall

end Tokens

end ModuleServer.Expression
