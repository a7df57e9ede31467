import ModuleServer.Proofs.Expression.Split
import ModuleServer.Proofs.Text.Pieces

/-!
# Names are put into the context by insertion

Nothing is asked of an expression here: strings, brackets and template literals may be left open,
and the text may be no expression at all. What is written for it is the text itself with insertions
at some of its names (`prefixNames?_inserts`), none of them inside of a string as long as there is no
template literal.

Strings are what a reader of quotes takes for strings (`QuoteState`), who sees one character after
another and knows nothing of names.
-/

namespace ModuleServer.Expression

open Text

/-! ## Strings -/

/-- Where a reader of quotes stands. -/
inductive QuoteState where
  /-- Outside of strings. -/
  | outside
  /-- In a string that starts with a quote. -/
  | inside (quote : Char)
  /-- In such a string, behind a backslash that hides the next character. -/
  | escaped (quote : Char)
deriving DecidableEq, Repr

namespace QuoteState

/-- One more character. -/
def step : QuoteState → Char → QuoteState
  | outside, c => if c = '\'' ∨ c = '"' then inside c else outside
  | inside quote, c =>
    if c = '\\' then escaped quote else if c = quote then outside else inside quote
  | escaped quote, _ => inside quote

/-- A text after what has been read. -/
def run (s : QuoteState) (t : Text) : QuoteState :=
  t.foldl step s

@[simp] theorem run_nil (s : QuoteState) : s.run [] = s :=
  rfl

@[simp] theorem run_cons (s : QuoteState) (c : Char) (t : Text) :
    s.run (c :: t) = (s.step c).run t :=
  rfl

theorem run_append (s : QuoteState) (t u : Text) : s.run (t ++ u) = (s.run t).run u :=
  List.foldl_append

/-- A string ends where it is copied up to, unless it is never closed. -/
theorem run_readString {quote : Char} (hquote : quote ≠ '\\') (t : Text) :
    (inside quote).run (readString quote t).1 = outside ∨ (readString quote t).2 = [] := by
  fun_induction readString quote t with
  | case1 => exact .inr rfl
  | case2 c t ih => exact ih
  | case3 t hescape =>
    refine .inl ?_
    rw [run_cons, step, if_neg hquote, if_pos rfl]
    rfl
  | case4 c t hescape hc ih =>
    cases t with
    | nil => exact .inr rfl
    | cons d t =>
      have hstep : (inside quote).step c = inside quote := by
        rw [step, if_neg fun h => hescape d t h rfl, if_neg hc]
      rw [run_cons, hstep]
      exact ih

end QuoteState

/-- Whether the place behind a text stands outside of strings. -/
def IsOutside (t : Text) : Prop :=
  QuoteState.outside.run t = .outside

instance (t : Text) : Decidable (IsOutside t) :=
  inferInstanceAs (Decidable (_ = _))

theorem IsOutside.append {t u : Text} (ht : IsOutside t) (hu : IsOutside u) :
    IsOutside (t ++ u) := by
  rw [IsOutside, QuoteState.run_append, ht]
  exact hu

/-- A text without quotes leaves the place behind it outside of strings. -/
theorem isOutside_of_no_quote {t : Text} (h : ∀ c ∈ t, c ≠ '\'' ∧ c ≠ '"') : IsOutside t := by
  induction t with
  | nil => rfl
  | cons c t ih =>
    obtain ⟨⟨hsingle, hdouble⟩, ht⟩ := List.forall_mem_cons.1 h
    have hstep : QuoteState.outside.step c = .outside := if_neg (not_or.2 ⟨hsingle, hdouble⟩)
    rw [IsOutside, QuoteState.run_cons, hstep]
    exact ih ht

/-- Characters of a class that has no quote leave the place behind them outside of strings. -/
theorem isOutside_of_class {p : Char → Bool} {t : Text} (hsingle : p '\'' = false)
    (hdouble : p '"' = false) (h : t.all p) : IsOutside t :=
  isOutside_of_no_quote fun c hc => ⟨ne_of_mem_run h hsingle c hc, ne_of_mem_run h hdouble c hc⟩

/-- A string is copied up to the place where it ends, unless it is never closed. -/
theorem isOutside_readString {quote : Char} (hquote : quote = '\'' ∨ quote = '"') (t : Text) :
    IsOutside (quote :: (readString quote t).1) ∨ (readString quote t).2 = [] := by
  have hslash : quote ≠ '\\' := by
    rcases hquote with rfl | rfl <;> decide
  rw [IsOutside, QuoteState.run_cons, QuoteState.step, if_pos hquote]
  exact QuoteState.run_readString hslash t

/-! ## Names among pieces -/

/-- What holds of every name among pieces: of the text before it, of the name and its role, and of
the text behind it. -/
def Piece.AtNames (P : Text → Text → Role → Text → Prop) (pieces : List Piece) : Prop :=
  ∀ before n role behind, pieces = before ++ .name n role :: behind →
    P (before.flatMap Piece.source) n role (behind.flatMap Piece.source)

namespace Piece.AtNames

variable {P : Text → Text → Role → Text → Prop} {pieces pieces' : List Piece}

theorem nil : AtNames P [] :=
  fun _ _ _ _ h => absurd h.symm (by simp)

theorem verbatim {t : Text} (h : AtNames (fun seen => P (t ++ seen)) pieces) :
    AtNames P (.verbatim t :: pieces) := by
  intro before n role behind heq
  cases before with
  | nil => cases heq
  | cons p before =>
    obtain ⟨rfl, hrest⟩ := List.cons.inj heq
    exact h before n role behind hrest

theorem name {n : Text} {role : Role} (hname : P [] n role (pieces.flatMap Piece.source))
    (h : AtNames (fun seen => P (n ++ seen)) pieces) : AtNames P (.name n role :: pieces) := by
  intro before m role' behind heq
  cases before with
  | nil =>
    cases heq
    exact hname
  | cons p before =>
    obtain ⟨rfl, hrest⟩ := List.cons.inj heq
    exact h before m role' behind hrest

theorem append
    (h : AtNames (fun seen n role rest => P seen n role (rest ++ pieces'.flatMap Piece.source))
      pieces)
    (h' : AtNames (fun seen => P (pieces.flatMap Piece.source ++ seen)) pieces') :
    AtNames P (pieces ++ pieces') := by
  intro before n role behind heq
  rcases List.append_eq_append_iff.1 heq with ⟨rest, rfl, hrest⟩ | ⟨rest, rfl, hrest⟩
  · rw [List.flatMap_append]
    exact h' rest n role behind hrest
  · cases rest with
    | nil =>
      have hbefore := h' [] n role behind hrest.symm
      simpa using hbefore
    | cons p rest =>
      obtain ⟨rfl, hbehind⟩ := List.cons.inj hrest
      rw [hbehind, List.append_eq, List.flatMap_append]
      exact h before n role rest rfl

end Piece.AtNames

section Scans

variable {locals : List Text}

/-! ## Where names are cut off -/

/-- What is cut off as a name is one and goes on as far as it can, and it stays as it is if it is
bound. -/
def IsCutOff (locals : List Text) (n : Text) (role : Role) (rest : Text) : Prop :=
  isName n ∧ headIs isNameChar rest = false ∧ (n ∈ locals → role = .bound)

theorem role_of_mem {ctx : Context} {n : Text} {next : Option Char} (h : n ∈ locals) :
    ctx.role locals n next = .bound := by
  have hlocal : locals.contains n := List.contains_iff_mem.2 h
  rw [Context.role, hlocal, Bool.or_true]
  rfl

/-- A hole of a template literal ends before a brace, or with the text. -/
theorem headIs_readHole (depth : Nat) (t : Text) :
    headIs isNameChar (readHole depth t).2 = false := by
  fun_induction readHole depth t with
  | case1 => rfl
  | case2 => rfl
  | case3 _ _ ih => exact ih
  | case4 _ _ _ _ _ ih => exact ih

theorem isCutOff_scan (mode : Mode) (t : Text) :
    Piece.AtNames (fun _ => IsCutOff locals) (scan locals mode t) := by
  fun_induction scan locals mode t
  case case1 | case7 => exact .nil
  case case4 ctx c r _ _ hstart name rest ih =>
    refine .name ⟨?_, ?_, role_of_mem⟩ ih
    · simp only [name, isName, hstart, Bool.true_and]
      exact List.all_takeWhile
    · rw [flatMap_source_scan]
      exact headIs_dropWhile isNameChar r
  case case9 outer r ihHole ihLiteral =>
    refine .verbatim (.append ?_ ?_)
    · -- what ends a hole stands before the brace that closes it, or at the end of the text
      intro before n role behind h
      obtain ⟨hname, hrest, hbound⟩ := ihHole before n role behind h
      refine ⟨hname, ?_, hbound⟩
      cases hbehind : behind.flatMap Piece.source with
      | cons c rest => rwa [hbehind] at hrest
      | nil =>
        have hclosing := headIs_readHole 0 r
        rw [List.nil_append]
        split
        · rfl
        · rename_i hhole
          rwa [hhole] at hclosing
    · split
      · exact .nil
      · rename_i brace rest h
        exact .verbatim (ihLiteral brace rest h)
  all_goals exact .verbatim ‹_›

/-- One more piece that ends outside of strings. -/
theorem Piece.AtNames.outside {t : Text} {pieces : List Piece} (ht : IsOutside t)
    (h : Piece.AtNames (fun seen _ _ _ => IsOutside seen) pieces) :
    Piece.AtNames (fun seen _ _ _ => IsOutside seen) (.verbatim t :: pieces) :=
  .verbatim fun before n role behind heq => ht.append (h before n role behind heq)

/-- Without template literals, names are cut off outside of strings only. -/
theorem isOutside_scan {ctx : Context} {t : Text} (htick : '`' ∉ t) :
    Piece.AtNames (fun seen _ _ _ => IsOutside seen) (scan locals (.code ctx) t) := by
  generalize hmode : Mode.code ctx = mode
  fun_induction scan locals mode t generalizing ctx
  case case1 => exact .nil
  case case2 ctx c r hquote ih =>
    rcases isOutside_readString hquote r with hclosed | hopen
    · refine .outside hclosed (ih (fun hmem => htick ?_) rfl)
      rw [← readString_append c r]
      exact List.mem_cons_of_mem _ (List.mem_append_right _ hmem)
    · -- behind a string that is never closed there is nothing
      rw [hopen, scan]
      exact .verbatim .nil
  case case3 => exact absurd List.mem_cons_self htick
  case case4 ctx c r _ _ hstart name rest ih =>
    have hname : IsOutside name := by
      refine isOutside_of_class (p := isNameChar) (by decide) (by decide) ?_
      rw [List.all_cons, isNameChar_of_isNameStart hstart]
      exact List.all_takeWhile
    refine .name rfl fun before n role behind heq => hname.append (ih ?_ rfl before n role behind heq)
    exact fun hmem => htick (List.mem_cons_of_mem _ ((List.dropWhile_suffix _).subset hmem))
  case case5 ctx c r _ _ _ hdigit number ih =>
    refine .outside (isOutside_of_class (p := isNumberChar) (by decide) (by decide) ?_) (ih ?_ rfl)
    · rw [List.all_cons, isNumberChar, (classes_of_digit hdigit).2.1]
      exact List.all_takeWhile
    · exact fun hmem => htick (List.mem_cons_of_mem _ ((List.dropWhile_suffix _).subset hmem))
  case case6 ctx c r hquote _ _ _ ih =>
    refine .outside (isOutside_of_no_quote ?_) (ih (fun hmem => htick ?_) rfl)
    · simpa using not_or.1 hquote
    · exact List.mem_cons_of_mem _ hmem
  all_goals cases hmode

end Scans

/-! ## What is written -/

/-- Whatever an expression looks like, it can be cut into names and texts between them so that what
is written are the same texts, with each name as it is, as a name of the context, or as an entry
whose value is one of the context. A name goes on as far as it can, stays as it is if it is bound,
and stands outside of strings if there is no template literal. So all stays as it is where all names
are bound. The parameters of all arrows are to be told. -/
theorem prefixNames?_inserts (locals : List Text) {exp : Text} (hsplit : ¬SplitsName exp) :
    ∃ pieces : List Piece,
      exp = pieces.flatMap Piece.source ∧
      prefixNames? locals exp = some (pieces.flatMap Piece.output) ∧
      (∀ before n role behind, pieces = before ++ .name n role :: behind →
        isName n ∧ headIs isNameChar (behind.flatMap Piece.source) = false ∧
        (n ∈ locals → role = .bound) ∧
        ('`' ∉ exp → IsOutside (before.flatMap Piece.source) ∧
          IsOutside (before.flatMap Piece.source ++ n))) ∧
      ((∀ n role, .name n role ∈ pieces → n ∈ locals) → prefixNames? locals exp = some exp) := by
  obtain ⟨names, hnames⟩ := Option.ne_none_iff_exists'.1 (mt parameterNames?_eq_none_iff.1 hsplit)
  have hwritten : prefixNames? locals exp =
      some ((readPieces (names ++ locals) exp).flatMap Piece.output) := by
    rw [prefixNames?, hnames]
    rfl
  have hbound : ∀ {n : Text} {role : Role} {rest : Text}, IsCutOff (names ++ locals) n role rest →
      n ∈ locals → role = .bound :=
    fun h hlocal => h.2.2 (List.mem_append_right _ hlocal)
  have hcut := @isCutOff_scan (names ++ locals) (.code .start) exp
  refine ⟨readPieces (names ++ locals) exp, (flatMap_source_readPieces ..).symm, hwritten, ?_, ?_⟩
  · intro before n role behind heq
    have hname := hcut before n role behind heq
    refine ⟨hname.1, hname.2.1, hbound hname, fun htick => ?_⟩
    have hbefore := isOutside_scan htick before n role behind heq
    exact ⟨hbefore, hbefore.append <| isOutside_of_class (by decide) (by decide)
      (all_isNameChar (.mk n hname.1))⟩
  · intro hall
    rw [hwritten]
    refine congrArg some ((List.flatMap_congr fun p hp => ?_).trans (flatMap_source_readPieces ..))
    cases p with
    | verbatim t => rfl
    | name n role =>
      obtain ⟨before, behind, heq⟩ := List.append_of_mem hp
      rw [hbound (hcut before n role behind heq) (hall n role hp)]
      rfl

/-- An expression that is none, with a bracket that matches nothing and a string that is never
closed. -/
theorem prefixNames?_inserts_openString :
    let exp := "\x7b id, 'it\\'s': [names['x'], id]) + \"open".toList
    ¬SplitsName exp ∧ '`' ∉ exp ∧ ∃ pieces : List Piece,
      exp = pieces.flatMap Piece.source ∧
      pieces.flatMap Piece.output =
        "\x7b id: _ctx.id, 'it\\'s': [names['x'], _ctx.id]) + \"open".toList ∧
      ∀ before n role behind, pieces = before ++ .name n role :: behind →
        IsOutside (before.flatMap Piece.source) := by
  intro exp
  have hsplit : ¬SplitsName exp := fun h =>
    absurd (parameterNames?_eq_none_iff.2 h) (by decide +kernel)
  have htick : '`' ∉ exp := by decide
  obtain ⟨pieces, hcut, hwritten, hnames, -⟩ := prefixNames?_inserts ["names".toList] hsplit
  have houtput : prefixNames? ["names".toList] exp =
      some "\x7b id: _ctx.id, 'it\\'s': [names['x'], _ctx.id]) + \"open".toList := by
    decide +kernel
  refine ⟨hsplit, htick, pieces, hcut, Option.some.inj (hwritten.symm.trans houtput), ?_⟩
  exact fun before n role behind heq => ((hnames before n role behind heq).2.2.2 htick).1

end ModuleServer.Expression
