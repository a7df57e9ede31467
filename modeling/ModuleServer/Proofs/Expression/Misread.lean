import ModuleServer.Proofs.Script.Balance
import ModuleServer.Expression.Scope

/-!
# Balanced expressions stay balanced

Putting the names of an expression into the context opens and closes nothing, wherever the names
really stand: in code, in a string, or in the text of a template literal. There is one exception. In
the text of a template literal a backslash takes a dollar sign with it; where the dollar sign is
taken for a name, what is put in front of it takes the backslash instead, and a curly bracket behind
the dollar sign opens a hole that was none (`misreads`).

Without that, a balanced expression is balanced in the context (`balanced_prefixNames?`).
-/

namespace ModuleServer.Expression

open Text Script

/-! ## Misreading -/

/-- Whether a piece is taken for the name that is a dollar sign. -/
def Piece.isDollar : Piece → Bool
  | .name n _ => n = ['$']
  | .verbatim _ => false

/-- Whether the next character is hidden by a backslash in the text of a template literal. -/
def isHidden (s : State) : Bool :=
  s.pending = .escape && s.layers.head? = some .literal

/-- Whether, in pieces of an expression from a state of the scan on, a hidden dollar sign is taken
for a name and stands in front of a curly bracket. -/
def misreads (s : State) : List Piece → Bool
  | [] => false
  | p :: pieces =>
    (isHidden s && p.isDollar && headIs (· = '{') (pieces.flatMap Piece.source)) ||
      (s.run p.source).any fun next => misreads next pieces

/-- Whether a dollar sign of an expression that a backslash hides is taken for a name, in front of a
curly bracket. -/
def isMisread (exp : Text) : Bool :=
  misreads .start (readPieces [] exp)

/-! ## Names -/

/-- Whether a piece is not empty, and has the characters of a name if it is one. -/
def Piece.IsProper : Piece → Prop
  | .name n _ => n ≠ [] ∧ n.all isNameChar
  | .verbatim t => t ≠ []

theorem isProper_scan (locals : List Text) (mode : Mode) (t : Text) :
    ∀ p ∈ scan locals mode t, p.IsProper := by
  fun_induction scan locals mode t
  case case4 ctx c r _ _ hname name rest ih =>
    refine List.forall_mem_cons.2 ⟨⟨List.cons_ne_nil _ _, ?_⟩, ih⟩
    rw [List.all_cons, isNameChar_of_isNameStart hname]
    exact List.all_takeWhile
  case case9 outer r ih2 ih1 =>
    refine List.forall_mem_cons.2 ⟨List.cons_ne_nil _ _, List.forall_mem_append.2 ⟨ih2, ?_⟩⟩
    split
    · exact List.forall_mem_nil _
    · rename_i brace rest h
      exact List.forall_mem_cons.2 ⟨List.cons_ne_nil _ _, ih1 brace rest h⟩
  case case1 => exact List.forall_mem_nil _
  case case7 => exact List.forall_mem_nil _
  all_goals exact List.forall_mem_cons.2 ⟨List.cons_ne_nil _ _, by assumption⟩

/-- A piece without its role. -/
def Piece.bare : Piece → Piece
  | .name n _ => .name n .bound
  | .verbatim t => .verbatim t

/-- Where an expression is cut does not depend on what is bound. -/
theorem map_bare_scan (locals : List Text) (mode : Mode) (t : Text) :
    (scan locals mode t).map Piece.bare = (scan [] mode t).map Piece.bare := by
  fun_induction scan locals mode t
  case case4 =>
    simp_all [scan, Piece.bare]
    exact ⟨rfl, rfl⟩
  case case5 =>
    simp_all [scan, Piece.bare]
    exact ⟨rfl, rfl⟩
  case case9 outer r ih2 ih1 =>
    rw [scan, List.map_cons, List.map_cons, List.map_append, List.map_append, ih2]
    refine congrArg (List.cons _) (congrArg (HAppend.hAppend _) ?_)
    split
    · rfl
    · rename_i brace rest h
      rw [List.map_cons, List.map_cons, ih1 brace rest h]
  all_goals simp_all [scan, Piece.bare]

theorem misreads_map_bare (s : State) (pieces : List Piece) :
    misreads s (pieces.map Piece.bare) = misreads s pieces := by
  have hsource : ∀ p : Piece, p.bare.source = p.source := by
    intro p
    cases p <;> rfl
  have hdollar : ∀ p : Piece, p.bare.isDollar = p.isDollar := by
    intro p
    cases p <;> rfl
  induction pieces generalizing s with
  | nil => rfl
  | cons p pieces ih =>
    have hall : (pieces.map Piece.bare).flatMap Piece.source = pieces.flatMap Piece.source := by
      rw [List.flatMap_map]
      exact congrArg (pieces.flatMap ·) (funext hsource)
    rw [List.map_cons, misreads, misreads, hsource, hdollar, hall]
    simp only [ih]

/-- Whether an expression is misread does not depend on what is bound. -/
theorem misreads_readPieces (locals : List Text) (exp : Text) :
    misreads .start (readPieces locals exp) = isMisread exp := by
  rw [isMisread, ← misreads_map_bare, readPieces, map_bare_scan, misreads_map_bare]
  rfl

/-! ## Steps over names -/

section Steps

variable {s s' next : State} {layers : List Layer} {pending : Pending} {c : Char}
  {n rest t : Text}

/-- A dollar sign matters to a curly bracket only. -/
theorem step_dollar (hc : c ≠ '{') :
    State.step ⟨layers, .dollar⟩ c = State.step ⟨layers, .none⟩ c := by
  have hliteral : ∀ outer, stepLiteral outer .dollar c = stepLiteral outer .none c := by
    intro outer
    simp [stepLiteral, hc]
  cases layers using byPlace with
  | code layers hcode => rw [step_of_isCode hcode, step_of_isCode hcode]
  | double outer => rfl
  | single outer => rfl
  | literal outer => exact congrArg some (hliteral outer)

/-- What puts a name into the context opens and closes nothing, and leaves nothing to the next
character. -/
theorem run_context (s : State) : s.run "_ctx.".toList = some ⟨s.layers, .none⟩ := by
  obtain ⟨layers, pending⟩ := s
  cases layers with
  | nil => rfl
  | cons layer outer => cases layer <;> cases pending <;> rfl

theorem run_separator (s : State) : s.run ": _ctx.".toList = some ⟨s.layers, .none⟩ := by
  obtain ⟨layers, pending⟩ := s
  cases layers with
  | nil => rfl
  | cons layer outer => cases layer <;> cases pending <;> rfl

/-- What a character of a name leaves to the next one. -/
def afterName (s : State) (c : Char) : Pending :=
  if s.layers.head? = some .literal ∧ s.pending ≠ .escape ∧ c = '$' then .dollar else .none

theorem ne_of_isNameChar {d : Char} (hc : isNameChar c) (hd : isNameChar d = false) : c ≠ d := by
  rintro rfl
  exact absurd (hc.symm.trans hd) Bool.noConfusion

/-- A character of a name opens and closes nothing. -/
theorem step_nameChar (hc : isNameChar c) (s : State) :
    s.step c = some ⟨s.layers, afterName s c⟩ := by
  obtain ⟨layers, pending⟩ := s
  have hback : c ≠ '\\' := ne_of_isNameChar hc (by decide)
  have hdouble : c ≠ '"' := ne_of_isNameChar hc (by decide)
  have hsingle : c ≠ '\'' := ne_of_isNameChar hc (by decide)
  have htick : c ≠ '`' := ne_of_isNameChar hc (by decide)
  have hopen : c ≠ '{' := ne_of_isNameChar hc (by decide)
  have hplain : Neutral.isPlain c := by
    simp [Neutral.isPlain, opened?, hdouble, hsingle, htick, hopen,
      ne_of_isNameChar hc (by decide : isNameChar '(' = false),
      ne_of_isNameChar hc (by decide : isNameChar ')' = false),
      ne_of_isNameChar hc (by decide : isNameChar '[' = false),
      ne_of_isNameChar hc (by decide : isNameChar ']' = false),
      ne_of_isNameChar hc (by decide : isNameChar '}' = false)]
  cases layers using byPlace with
  | code layers hcode =>
    have hliteral : layers.head? ≠ some .literal := by
      intro h
      rw [isCode, h] at hcode
      cases hcode
    rw [step_of_isCode hcode, Neutral.stepCode_of_isPlain hplain, afterName,
      if_neg fun h => hliteral h.1]
  | double outer => simp [State.step, stepQuoted, hback, hdouble, afterName]
  | single outer => simp [State.step, stepQuoted, hback, hsingle, afterName]
  | literal outer =>
    simp only [State.step, stepLiteral, hback, htick, hopen, and_false, if_false, afterName,
      List.head?_cons, true_and]
    cases pending <;> by_cases hdollar : c = '$' <;> simp [hdollar]

/-- A name opens and closes nothing. -/
theorem run_name (hn : n.all isNameChar) (s : State) :
    ∃ pending, s.run n = some ⟨s.layers, pending⟩ := by
  induction n generalizing s with
  | nil => exact ⟨s.pending, rfl⟩
  | cons c n ih =>
    rw [List.all_cons, Bool.and_eq_true] at hn
    rw [State.run_cons, step_nameChar hn.1, Option.bind_some]
    exact ih hn.2 _

/-- Two states that cannot be told apart before a text: at most, in the text of a template literal,
one of them is behind a dollar sign, and no curly bracket follows. -/
def Near (s s' : State) (rest : Text) : Prop :=
  s = s' ∨ s = ⟨s'.layers, .dollar⟩ ∧ s'.layers.head? = some .literal ∧ s'.pending = .none ∧
    headIs (· = '{') rest = false

theorem Near.step (h : Near s s' (c :: rest)) : s.step c = s'.step c := by
  rcases h with rfl | ⟨rfl, -, hnone, hcurly⟩
  · rfl
  · obtain ⟨layers, pending⟩ := s'
    obtain rfl : pending = .none := hnone
    exact step_dollar (of_decide_eq_false hcurly)

theorem Near.run (h : Near s s' (t ++ rest)) (ht : t ≠ []) : s.run t = s'.run t := by
  cases t with
  | nil => exact absurd rfl ht
  | cons c t => rw [State.run_cons, State.run_cons, h.step]

theorem Near.layers_eq (h : Near s s' rest) : s.layers = s'.layers := by
  rcases h with rfl | ⟨rfl, -⟩
  · rfl
  · rfl

/-- A name that has been put into the context leads to a state that cannot be told apart from the
one behind the name, unless a hidden dollar sign is the whole name and a curly bracket follows. -/
theorem near_of_context (hn : n ≠ [] ∧ n.all isNameChar)
    (hhidden : (isHidden s' && n = ['$'] && headIs (· = '{') rest) = false)
    (h : s'.run n = some next) :
    ∃ found, State.run ⟨s'.layers, .none⟩ n = some found ∧ Near found next rest := by
  obtain ⟨hne, hall⟩ := hn
  obtain ⟨c, m, rfl⟩ := List.exists_cons_of_ne_nil hne
  rw [List.all_cons, Bool.and_eq_true] at hall
  rw [State.run_cons, step_nameChar hall.1, Option.bind_some] at h ⊢
  by_cases hsame : afterName ⟨s'.layers, .none⟩ c = afterName s' c
  · rw [hsame]
    exact ⟨next, h, .inl rfl⟩
  · -- only a hidden dollar sign makes a difference
    obtain ⟨layers, pending⟩ := s'
    simp only [afterName] at hsame h ⊢
    cases pending with
    | none => exact absurd rfl hsame
    | dollar => simp at hsame
    | escape =>
      simp only [ne_eq, not_true_eq_false, false_and, and_false, if_false, reduceCtorEq,
        not_false_eq_true, true_and, ite_eq_right_iff, Classical.not_imp] at hsame h ⊢
      obtain ⟨⟨hliteral, rfl⟩, -⟩ := hsame
      rw [if_pos ⟨hliteral, rfl⟩]
      cases m with
      | nil =>
        cases h
        refine ⟨⟨layers, .dollar⟩, rfl, .inr ⟨rfl, hliteral, rfl, ?_⟩⟩
        simpa [isHidden, hliteral] using hhidden
      | cons d m =>
        rw [List.all_cons, Bool.and_eq_true] at hall
        have hd : d ≠ '{' := ne_of_isNameChar hall.2.1 (by decide)
        rw [State.run_cons] at h ⊢
        rw [step_dollar hd]
        exact ⟨next, h, .inl rfl⟩

end Steps

/-! ## Expressions -/

section Expressions

variable {s s' next : State} {locals : List Text} {exp code : Text} {pieces : List Piece}
  {layers : List Layer}

/-- Two states that cannot be told apart before a piece are led by what is written for the one, and
by what is read for the other, to states that cannot be told apart behind it. -/
theorem exists_near_of_output {p : Piece} {rest : Text} (hp : p.IsProper)
    (hnear : Near s s' (p.source ++ rest))
    (hhidden : (isHidden s' && p.isDollar && headIs (· = '{') rest) = false)
    (h : s'.run p.source = some next) :
    ∃ found, s.run p.output = some found ∧ Near found next rest := by
  cases p with
  | verbatim t => exact ⟨next, (hnear.run hp).trans h, .inl rfl⟩
  | name n role =>
    have hsame : s.run n = some next := (hnear.run hp.1).trans h
    cases role with
    | bound => exact ⟨next, hsame, .inl rfl⟩
    | free =>
      obtain ⟨found, hfound, hnext⟩ := near_of_context hp hhidden h
      refine ⟨found, ?_, hnext⟩
      rw [Piece.output, State.run_append, run_context, hnear.layers_eq]
      exact hfound
    | entry =>
      obtain ⟨found, hfound, hnext⟩ := near_of_context hp hhidden h
      obtain ⟨pending, hlayers⟩ := run_name hp.2 s'
      obtain rfl : (⟨s'.layers, pending⟩ : State) = next := Option.some.inj (hlayers.symm.trans h)
      refine ⟨found, ?_, hnext⟩
      rw [Piece.output, List.append_assoc, State.run_append, hsame, Option.bind_some,
        State.run_append, run_separator]
      exact hfound

/-- If nothing is misread, what is written for pieces of code leads where the pieces lead. -/
theorem run_output (hproper : ∀ p ∈ pieces, p.IsProper)
    (hnear : Near s s' (pieces.flatMap Piece.source)) (hmisread : misreads s' pieces = false)
    (hlayers : isCode layers)
    (h : s'.run (pieces.flatMap Piece.source) = some ⟨layers, .none⟩) :
    s.run (pieces.flatMap Piece.output) = some ⟨layers, .none⟩ := by
  induction pieces generalizing s s' with
  | nil =>
    obtain rfl := Option.some.inj h
    rcases hnear with rfl | ⟨-, hliteral, -⟩
    · rfl
    · -- code goes on behind the last piece
      rw [isCode, hliteral] at hlayers
      cases hlayers
  | cons p pieces ih =>
    obtain ⟨hp, hpieces⟩ := List.forall_mem_cons.1 hproper
    rw [List.flatMap_cons] at hnear h ⊢
    rw [State.run_append] at h ⊢
    obtain ⟨next, hnext, hrest⟩ := Option.bind_eq_some_iff.1 h
    rw [misreads, Bool.or_eq_false_iff, hnext] at hmisread
    obtain ⟨found, hfound, hafter⟩ := exists_near_of_output hp hnear hmisread.1 hnext
    rw [hfound]
    exact ih hpieces hafter hmisread.2 hrest

/-- Balanced code whose names have been put into the context is balanced, if nothing is misread. -/
theorem balanced_prefixNames? (hexp : IsBalanced exp) (hmisread : isMisread exp = false)
    (h : prefixNames? locals exp = some code) : IsBalanced code := by
  obtain ⟨names, -, rfl⟩ := Option.map_eq_some_iff.1 h
  refine run_output (isProper_scan _ _ _) (.inl rfl) ?_ rfl ?_
  · exact (misreads_readPieces _ exp).trans hmisread
  · rw [flatMap_source_readPieces]
    exact hexp

/-- A curly bracket in a string in a hole hides the end of the hole, so that the dollar sign behind
it is taken for a name. -/
example : let exp := "`$\x7b'\x7b'\x7d\\$\x7b`".toList
    IsBalanced exp ∧ isMisread exp ∧ (prefixNames? [] exp).all fun code => ¬IsBalanced code := by
  decide +kernel

end Expressions

end ModuleServer.Expression
