import ModuleServer.Proofs.Expression.Place
import ModuleServer.Proofs.Script.Balance
import ModuleServer.Proofs.Script.Term

/-!
# Code outside of comments and literals

A scan of a script that knows comments, strings and template literals with holes, and takes any
other character as it is. What it shows of a script is its code: a comment is white space there, and
a literal its two marks (`Scan.code`). A slash that starts no comment is a mark like any other, so
regular expressions are not told apart.

* `ends_code`, `headIs_code_start`: the code has a name at its end or its start where the script has.
* `exists_of_code`: what is shown as part of a name stands in the script, in code.
* `inCode_run_line`: a line that opens and closes nothing leads to code, if nothing else is open.
-/

namespace ModuleServer.Script

open Text
open Expression (isNameChar)

/-! ## The scan -/

/-- What a scan stands in. -/
inductive Spot where
  /-- Code. -/
  | code
  /-- Code, behind a slash that may start a comment. -/
  | slash
  /-- A comment up to the end of its line. -/
  | line
  /-- A comment up to its closing mark, and whether an asterisk is the last character. -/
  | block (star : Bool)
  /-- A string in double or single quotes, and whether the next character stands for itself. -/
  | string (double escaped : Bool)
  /-- The text of a template literal. -/
  | literal (pending : Pending)
deriving DecidableEq, Repr

/-- Where a scan is: what it stands in, and the open holes of template literals, innermost first,
each with the number of curly brackets that are open in it. -/
structure Scan where
  /-- What the scan stands in. -/
  spot : Spot
  /-- The open holes. -/
  holes : List Nat
deriving DecidableEq, Repr

namespace Scan

/-- Nothing is open. -/
def start : Scan :=
  ⟨.code, []⟩

/-- The mark around a string. -/
def quoteMark (double : Bool) : Char :=
  if double then '"' else '\''

/-- One more character of code. A curly bracket closes the hole in which none is open. -/
def nextCode (holes : List Nat) (c : Char) : Scan :=
  if c = '/' then ⟨.slash, holes⟩
  else if c = '"' then ⟨.string true false, holes⟩
  else if c = '\'' then ⟨.string false false, holes⟩
  else if c = '`' then ⟨.literal .none, holes⟩
  else
    match holes with
    | [] => ⟨.code, []⟩
    | depth :: outer =>
      if c = '{' then ⟨.code, (depth + 1) :: outer⟩
      else if c = '}' then
        if depth = 0 then ⟨.literal .none, outer⟩ else ⟨.code, (depth - 1) :: outer⟩
      else ⟨.code, depth :: outer⟩

/-- One more character. -/
def next (s : Scan) (c : Char) : Scan :=
  match s.spot with
  | .code => nextCode s.holes c
  | .slash =>
    if c = '/' then ⟨.line, s.holes⟩
    else if c = '*' then ⟨.block false, s.holes⟩
    else nextCode s.holes c
  | .line => if isLineEnd c then ⟨.code, s.holes⟩ else s
  | .block star => if star ∧ c = '/' then ⟨.code, s.holes⟩ else ⟨.block (c = '*'), s.holes⟩
  | .string double escaped =>
    if escaped then ⟨.string double false, s.holes⟩
    else if c = '\\' then ⟨.string double true, s.holes⟩
    -- no string goes on over the end of a line
    else if c = quoteMark double ∨ c = '\n' ∨ c = '\r' then ⟨.code, s.holes⟩
    else s
  | .literal pending =>
    if pending = .escape then ⟨.literal .none, s.holes⟩
    else if c = '\\' then ⟨.literal .escape, s.holes⟩
    else if c = '`' then ⟨.code, s.holes⟩
    else if pending = .dollar ∧ c = '{' then ⟨.code, 0 :: s.holes⟩
    else ⟨.literal (if c = '$' then .dollar else .none), s.holes⟩

/-- What a character adds to the code of a script: nothing inside of a comment or a literal, white
space where a comment starts and ends, and a mark where a literal does. -/
def shows (s : Scan) (c : Char) : Text :=
  if s.holes = [] then
    match s.spot with
    | .code => if c = '/' then [] else [c]
    | .slash => if c = '/' ∨ c = '*' then [' '] else ['/', c]
    | .line => if s.next c = start then [' '] else []
    | .block _ => if s.next c = start then [' '] else []
    | .string .. => if s.next c = start then ['"'] else []
    | .literal _ => if s.next c = start then ['`'] else []
  else []

/-- A text after what has been scanned. -/
def run (s : Scan) (t : Text) : Scan :=
  t.foldl next s

/-- The code of a text after what has been scanned. -/
def code (s : Scan) : Text → Text
  | [] => []
  | c :: t => s.shows c ++ (s.next c).code t

/-- Whether a scan stands in code that is not part of a template literal. -/
def inCode (s : Scan) : Bool :=
  s = start || s = ⟨.slash, []⟩

/-- What has been scanned and is not shown yet: a slash that may start a comment. -/
def held (s : Scan) : Text :=
  if s.spot = .slash then ['/'] else []

/-- Whether the next end of a line leads to code: no template literal is open, and no comment up to
its closing mark. -/
def isClosed (s : Scan) : Bool :=
  s.holes.isEmpty && match s.spot with
    | .block _ => false
    | .literal _ => false
    | _ => true

variable {s : Scan} {c : Char} {t u : Text}

theorem run_append (s : Scan) (t u : Text) : s.run (t ++ u) = (s.run t).run u :=
  List.foldl_append

theorem code_append (s : Scan) (t u : Text) : s.code (t ++ u) = s.code t ++ (s.run t).code u := by
  induction t generalizing s with
  | nil => rfl
  | cons c t ih => rw [List.cons_append, code, code, ih, List.append_assoc]; rfl

/-- A scan in code has nothing open, and may hold a slash. -/
theorem inCode_iff : s.inCode ↔ s = start ∨ s = ⟨.slash, []⟩ := by
  rw [inCode, Bool.or_eq_true, decide_eq_true_eq, decide_eq_true_eq]

/-! ## Characters of code -/

/-- Characters that start no comment and no literal, whatever stands before them. -/
def isInert (c : Char) : Bool :=
  !(['/', '*', '"', '\'', '`'].contains c)

theorem isInert_of_isNameChar (h : isNameChar c) : isInert c := by
  have hnone : ['/', '*', '"', '\'', '`'].all (fun d => !isNameChar d) := by decide
  rw [isInert, Bool.not_eq_true', List.contains_eq_mem, decide_eq_false_iff_not]
  intro hmem
  have hc := List.all_eq_true.1 hnone c hmem
  rw [h] at hc
  cases hc

/-- A character that starts nothing is shown behind what is held. -/
theorem next_of_isInert (hs : s.inCode) (hc : isInert c) :
    s.next c = start ∧ s.shows c = s.held ++ [c] := by
  simp only [isInert, List.contains_cons, List.contains_nil, Bool.or_false, Bool.not_eq_true',
    Bool.or_eq_false_iff, beq_eq_false_iff_ne, ne_eq] at hc
  obtain ⟨hslash, hstar, hdouble, hsingle, htick⟩ := hc
  rcases inCode_iff.1 hs with rfl | rfl
  · simp [start, next, nextCode, shows, held, hslash, hdouble, hsingle, htick]
  · simp [start, next, nextCode, shows, held, hslash, hstar, hdouble, hsingle, htick]

/-- Code in which nothing starts is shown as it is. -/
theorem run_of_isInert (h : t.all isInert) : start.run t = start ∧ start.code t = t := by
  induction t with
  | nil => exact ⟨rfl, rfl⟩
  | cons c t ih =>
    rw [List.all_cons, Bool.and_eq_true] at h
    obtain ⟨hnext, hshows⟩ := next_of_isInert (s := start) rfl h.1
    obtain ⟨hrun, hcode⟩ := ih h.2
    rw [run, List.foldl_cons, hnext, code, hnext, hshows, hcode]
    exact ⟨hrun, rfl⟩

/-- Code in which nothing starts is shown behind what is held. -/
theorem run_of_inCode (hs : s.inCode) (h : t.all isInert) (hne : t ≠ []) :
    s.run t = start ∧ s.code t = s.held ++ t := by
  obtain ⟨c, t, rfl⟩ := List.exists_cons_of_ne_nil hne
  rw [List.all_cons, Bool.and_eq_true] at h
  obtain ⟨hnext, hshows⟩ := next_of_isInert hs h.1
  obtain ⟨hrun, hcode⟩ := run_of_isInert h.2
  rw [run, List.foldl_cons, hnext, code, hnext, hshows, hcode, List.append_assoc]
  exact ⟨hrun, rfl⟩

/-! ## Names in code -/

/-- A character of a name is shown where it stands in code, and nowhere else. -/
theorem eq_of_mem_shows {d : Char} (hd : isNameChar d) (h : d ∈ s.shows c) :
    c = d ∧ s.inCode := by
  have hmark : ∀ e, isNameChar e = false → d ≠ e := fun e he => ne_of_class hd he
  have hspace := hmark ' ' (by decide)
  have hquote := hmark '"' (by decide)
  have htick := hmark '`' (by decide)
  have hslash := hmark '/' (by decide)
  obtain ⟨spot, holes⟩ := s
  by_cases hholes : holes = []
  · subst hholes
    rw [shows, if_pos rfl] at h
    cases spot with
    | code =>
      dsimp only at h
      split at h
      · cases h
      · exact ⟨(List.mem_singleton.1 h).symm, rfl⟩
    | slash =>
      dsimp only at h
      split at h
      · exact absurd (List.mem_singleton.1 h) hspace
      · rw [List.mem_cons, List.mem_singleton] at h
        exact ⟨(h.resolve_left hslash).symm, rfl⟩
    | line | block | string | literal =>
      dsimp only at h
      split at h
      · simp_all
      · cases h
  · rw [shows, if_neg hholes] at h
    cases h

/-- In a hole, the end of the hole comes before code does. -/
theorem not_inCode_next (hs : s.holes ≠ []) (c : Char) : (s.next c).inCode = false := by
  obtain ⟨spot, _ | ⟨depth, outer⟩⟩ := s
  · exact absurd rfl hs
  have hcode : (nextCode (depth :: outer) c).inCode = false := by
    unfold nextCode
    dsimp only
    split_ifs <;> rfl
  unfold next
  cases spot with
  | code => exact hcode
  | slash =>
    dsimp only
    split_ifs
    · rfl
    · rfl
    · exact hcode
  | line | block | string | literal => dsimp only; split_ifs <;> rfl

/-- Out of code, or behind a slash, either nothing is shown and no code starts, or a mark is. -/
theorem shows_of_ne (hs : s ≠ start) (c : Char) : (s.shows c = [] ∧ s.next c ≠ start) ∨
    ∃ mark rest, s.shows c = mark :: rest ∧ isNameChar mark = false := by
  by_cases hholes : s.holes = []
  · by_cases hend : s.next c = start
    · right
      obtain ⟨spot, holes⟩ := s
      cases spot with
      | code => exact absurd (congrArg (Scan.mk .code) hholes) hs
      | slash =>
        rw [shows, if_pos hholes]
        dsimp only
        split
        · exact ⟨' ', [], rfl, rfl⟩
        · exact ⟨'/', [c], rfl, rfl⟩
      | line | block | string | literal =>
        rw [shows, if_pos hholes]
        dsimp only
        rw [if_pos hend]
        exact ⟨_, _, rfl, rfl⟩
    · obtain ⟨spot, holes⟩ := s
      cases spot with
      | code => exact absurd (congrArg (Scan.mk .code) hholes) hs
      | slash =>
        rw [shows, if_pos hholes]
        dsimp only
        split
        · exact .inr ⟨' ', [], rfl, rfl⟩
        · exact .inr ⟨'/', [c], rfl, rfl⟩
      | line | block | string | literal =>
        rw [shows, if_pos hholes]
        exact .inl ⟨if_neg hend, hend⟩
  · refine .inl ⟨if_neg hholes, fun hstart => ?_⟩
    have hnext := not_inCode_next hholes c
    rw [hstart] at hnext
    cases hnext

theorem headIs_code_of_ne (hs : s ≠ start) (t : Text) : headIs isNameChar (s.code t) = false := by
  induction t generalizing s with
  | nil => rfl
  | cons c t ih =>
    rw [code]
    rcases shows_of_ne hs c with ⟨hshows, hnext⟩ | ⟨mark, rest, hshows, hmark⟩
    · rw [hshows]
      exact ih hnext
    · rw [hshows]
      exact hmark

/-- A scan in code shows the start of a name exactly if one stands there. -/
theorem headIs_code_start (t : Text) :
    headIs isNameChar (start.code t) = headIs isNameChar t := by
  cases t with
  | nil => rfl
  | cons c t =>
    rw [code]
    by_cases hc : c = '/'
    · subst hc
      have hslash : start.next '/' ≠ start := by decide
      exact headIs_code_of_ne hslash t
    · have hshows : start.shows c = [c] := if_neg hc
      rw [hshows]
      rfl

/-- What leads back to code is an end of a line or a mark, so not part of a name. -/
theorem next_eq_start (hout : s.inCode = false) (hs : (s.next c).inCode) :
    s.holes = [] ∧ s.next c = start ∧ isNameChar c = false := by
  by_cases hholes : s.holes = []
  · refine ⟨hholes, ?_⟩
    obtain ⟨spot, holes⟩ := s
    obtain rfl : holes = [] := hholes
    unfold next at hs ⊢
    cases spot with
    | code => cases hout
    | slash => cases hout
    | line =>
      dsimp only at hs ⊢
      split at hs
      · rename_i hend
        rw [if_pos hend]
        simp only [isLineEnd, Bool.or_eq_true, decide_eq_true_eq] at hend
        refine ⟨rfl, Expression.isNameChar_of_white ?_⟩
        rcases hend with ((rfl | rfl) | rfl) | rfl <;> decide
      · cases hs
    | block star =>
      dsimp only at hs ⊢
      split at hs
      · rename_i hend
        rw [if_pos hend, hend.2]
        exact ⟨rfl, by decide⟩
      · cases hs
    | string double escaped =>
      dsimp only at hs ⊢
      split_ifs at hs with hescaped hback hend
      · cases hs
      · cases hs
      · rw [if_neg hescaped, if_neg hback, if_pos hend]
        refine ⟨rfl, ?_⟩
        rcases hend with rfl | rfl | rfl
        · cases double <;> decide
        · decide
        · decide
      · cases hs
    | literal pending =>
      dsimp only at hs ⊢
      split_ifs at hs with hescaped hback htick hhole
      · cases hs
      · cases hs
      · rw [if_neg hescaped, if_neg hback, if_pos htick, htick]
        exact ⟨rfl, by decide⟩
      · cases hs
      · cases hs
      · cases hs
  · rw [not_inCode_next hholes c] at hs
    cases hs

theorem held_nextCode (hc : c ≠ '/') : (nextCode [] c).held = [] := by
  unfold nextCode
  rw [if_neg hc]
  dsimp only
  split_ifs <;> rfl

/-- What leads to code is shown or held as a mark, unless it is part of a name. -/
theorem shows_concat (hs : (s.next c).inCode) : ∃ front d,
    s.shows c ++ (s.next c).held = front ++ [d] ∧ isNameChar d = isNameChar c := by
  by_cases hin : s.inCode
  · rcases inCode_iff.1 hin with rfl | rfl
    · by_cases hc : c = '/'
      · subst hc
        exact ⟨[], '/', rfl, rfl⟩
      · have hheld : (start.next c).held = [] := held_nextCode hc
        have hshows : start.shows c = [c] := if_neg hc
        exact ⟨[], c, by rw [hshows, hheld]; rfl, rfl⟩
    · have hslash : c ≠ '/' := by
        rintro rfl
        cases hs
      have hstar : c ≠ '*' := by
        rintro rfl
        cases hs
      have hnext : next ⟨.slash, []⟩ c = nextCode [] c := (if_neg hslash).trans (if_neg hstar)
      have hshows : shows ⟨.slash, []⟩ c = ['/', c] := if_neg (not_or.2 ⟨hslash, hstar⟩)
      exact ⟨['/'], c, by rw [hshows, hnext, held_nextCode hslash]; rfl, rfl⟩
  · rw [Bool.not_eq_true] at hin
    obtain ⟨hholes, hnext, hname⟩ := next_eq_start hin hs
    rw [hnext, hname]
    obtain ⟨spot, holes⟩ := s
    cases spot with
    | code =>
      obtain rfl : holes = [] := hholes
      cases hin
    | slash =>
      obtain rfl : holes = [] := hholes
      cases hin
    | line | block | string | literal =>
      rw [shows, if_pos hholes]
      dsimp only
      rw [if_pos hnext]
      exact ⟨[], _, rfl, rfl⟩

/-- A scan that ends in code has something to show for the last character. -/
theorem code_concat (s : Scan) (front : Text) (hs : (s.run (front ++ [c])).inCode) :
    ∃ shown d, s.code (front ++ [c]) ++ (s.run (front ++ [c])).held = shown ++ [d] ∧
      isNameChar d = isNameChar c := by
  rw [run_append] at hs ⊢
  obtain ⟨shown, d, hshown, hname⟩ := shows_concat hs
  refine ⟨s.code front ++ shown, d, ?_, hname⟩
  rw [code_append, List.append_assoc, List.append_assoc, ← hshown, code, code, List.append_nil]
  rfl

/-- A scan that ends in code shows a name at its end exactly if one stands there. -/
theorem ends_code (s : Scan) (hne : t ≠ []) (hs : (s.run t).inCode) :
    headIs isNameChar (s.code t ++ (s.run t).held).reverse = headIs isNameChar t.reverse := by
  obtain ⟨front, c, rfl⟩ := (List.eq_nil_or_concat t).resolve_left hne
  rw [List.concat_eq_append] at hs ⊢
  obtain ⟨shown, d, hcode, hname⟩ := code_concat s front hs
  rw [hcode, List.reverse_append, List.reverse_append]
  exact hname

theorem eq_nil_of_code (hs : (s.run t).inCode) (h : s.code t ++ (s.run t).held = []) : t = [] := by
  rcases List.eq_nil_or_concat t with rfl | ⟨front, c, rfl⟩
  · rfl
  · rw [List.concat_eq_append] at hs h
    obtain ⟨shown, d, hcode, -⟩ := code_concat s front hs
    rw [hcode] at h
    exact absurd h (List.append_ne_nil_of_right_ne_nil _ (List.cons_ne_nil _ _))

/-! ## Finding what is shown -/

/-- A character of a name is shown behind what is held. -/
theorem eq_of_shows {d : Char} {a b : Text} (hd : isNameChar d) (h : s.shows c = a ++ d :: b) :
    c = d ∧ s.inCode ∧ a = s.held ∧ b = [] ∧ s.next c = start := by
  obtain ⟨rfl, hin⟩ := eq_of_mem_shows hd (by rw [h]; simp)
  obtain ⟨hnext, hshows⟩ := next_of_isInert hin (isInert_of_isNameChar hd)
  refine ⟨rfl, hin, ?_⟩
  have hslash : c ≠ '/' := ne_of_class hd (by decide)
  rw [h] at hshows
  unfold held at hshows ⊢
  split at hshows
  · rename_i hspot
    rw [if_pos hspot]
    rcases a with _ | ⟨e, a⟩
    · exact absurd (List.cons.inj hshows).1 hslash
    · obtain ⟨rfl, hrest⟩ := List.cons.inj hshows
      obtain ⟨rfl, hb⟩ := List.append_eq_singleton_iff.1 hrest |>.resolve_right (by simp)
      exact ⟨rfl, (List.cons.inj hb).2, hnext⟩
  · rename_i hspot
    rw [if_neg hspot]
    obtain ⟨rfl, hb⟩ := List.append_eq_singleton_iff.1 hshows |>.resolve_right (by simp)
    exact ⟨rfl, (List.cons.inj hb).2, hnext⟩

/-- A character of a name that is shown stands in code. -/
theorem exists_of_code {d : Char} {a b : Text} (hd : isNameChar d) (h : s.code t = a ++ d :: b) :
    ∃ front rest, t = front ++ d :: rest ∧ (s.run front).inCode ∧
      s.code front ++ (s.run front).held = a ∧ start.code rest = b := by
  induction t generalizing s a with
  | nil => simp [code] at h
  | cons c t ih =>
    -- what is shown of the text behind `c`
    have hbehind : ∀ more, a = s.shows c ++ more → (s.next c).code t = more ++ d :: b →
        ∃ front rest, c :: t = front ++ d :: rest ∧ (s.run front).inCode ∧
          s.code front ++ (s.run front).held = a ∧ start.code rest = b := by
      intro more ha hmore
      obtain ⟨front, rest, rfl, hin, hcode, hb⟩ := ih hmore
      refine ⟨c :: front, rest, rfl, hin, ?_, hb⟩
      rw [ha, ← hcode, code, List.append_assoc]
      rfl
    rw [code] at h
    rcases List.append_eq_append_iff.1 h with ⟨more, ha, hmore⟩ | ⟨more, hshows, hmore⟩
    · exact hbehind more ha hmore
    · rcases more with _ | ⟨e, more⟩
      · rw [List.append_nil] at hshows
        exact hbehind [] (by rw [hshows, List.append_nil]) hmore.symm
      · obtain ⟨rfl, hmore⟩ := List.cons.inj hmore
        obtain ⟨rfl, hin, rfl, rfl, hnext⟩ := eq_of_shows hd hshows
        exact ⟨[], t, rfl, hin, rfl, by rw [← hnext]; exact (List.cons.inj hmore).2.symm⟩

/-- A word that is shown first in code stands there. -/
theorem exists_of_code_start {word b : Text} (hword : word.all isNameChar)
    (h : start.code t = word ++ b) : ∃ rest, t = word ++ rest ∧ start.code rest = b := by
  induction word generalizing t with
  | nil => exact ⟨t, rfl, h⟩
  | cons d word ih =>
    rw [List.all_cons, Bool.and_eq_true] at hword
    obtain ⟨front, rest, rfl, hin, hfront, hrest⟩ := exists_of_code (a := []) hword.1 h
    obtain rfl := eq_nil_of_code hin hfront
    obtain ⟨rest, rfl, hb⟩ := ih hword.2 hrest
    exact ⟨rest, rfl, hb⟩

/-- A word that is shown stands in code. -/
theorem exists_word_of_code {word a b : Text} (hne : word ≠ []) (hword : word.all isNameChar)
    (h : s.code t = a ++ (word ++ b)) :
    ∃ front rest, t = front ++ (word ++ rest) ∧ (s.run front).inCode ∧
      s.code front ++ (s.run front).held = a ∧ start.code rest = b := by
  obtain ⟨d, word, rfl⟩ := List.exists_cons_of_ne_nil hne
  rw [List.all_cons, Bool.and_eq_true] at hword
  obtain ⟨front, rest, rfl, hin, hfront, hrest⟩ := exists_of_code hword.1 h
  obtain ⟨rest, rfl, hb⟩ := exists_of_code_start hword.2 hrest
  exact ⟨front, rest, rfl, hin, hfront, hb⟩

/-- Nothing is shown of names but what stands there. -/
theorem mem_of_mem_code {d : Char} (hd : isNameChar d) (h : d ∈ s.code t) : d ∈ t := by
  obtain ⟨a, b, hcode⟩ := List.append_of_mem h
  obtain ⟨front, rest, rfl, -⟩ := exists_of_code hd hcode
  simp

/-! ## Strings -/

/-- A string goes on over characters that do not end it, and nothing is shown. -/
theorem run_string {double : Bool} (ht : ∀ c ∈ t, c ≠ quoteMark double ∧ c ≠ '\n' ∧ c ≠ '\r')
    (escaped : Bool) : ∃ escaped',
      run ⟨.string double escaped, []⟩ t = ⟨.string double escaped', []⟩ ∧
      code ⟨.string double escaped, []⟩ t = [] := by
  induction t generalizing escaped with
  | nil => exact ⟨escaped, rfl, rfl⟩
  | cons c t ih =>
    obtain ⟨hc, ht⟩ := List.forall_mem_cons.1 ht
    obtain ⟨between, hnext⟩ : ∃ between,
        next ⟨.string double escaped, []⟩ c = ⟨.string double between, []⟩ := by
      unfold next
      dsimp only
      split_ifs with hescaped hback hend
      · exact ⟨false, rfl⟩
      · exact ⟨true, rfl⟩
      · simp [hc] at hend
      · exact ⟨escaped, rfl⟩
    obtain ⟨last, hrun, hcode⟩ := ih ht between
    have hshows : shows ⟨.string double escaped, []⟩ c = [] := by
      rw [shows, if_pos rfl, hnext]
      rfl
    refine ⟨last, ?_, ?_⟩
    · rw [run, List.foldl_cons, hnext]
      exact hrun
    · rw [code, hshows, hnext, hcode]
      rfl

/-- A string goes on behind a character that neither ends it nor hides the next one. -/
theorem run_string_concat {double : Bool}
    (ht : ∀ c ∈ t, c ≠ quoteMark double ∧ c ≠ '\n' ∧ c ≠ '\r') (hback : c ≠ '\\')
    (hc : c ≠ quoteMark double ∧ c ≠ '\n' ∧ c ≠ '\r') (escaped : Bool) :
    run ⟨.string double escaped, []⟩ (t ++ [c]) = ⟨.string double false, []⟩ ∧
      code ⟨.string double escaped, []⟩ (t ++ [c]) = [] := by
  obtain ⟨between, hrun, hcode⟩ := run_string ht escaped
  have hnext : next ⟨.string double between, []⟩ c = ⟨.string double false, []⟩ := by
    cases between with
    | true => rfl
    | false => exact (if_neg hback).trans (if_neg (by simp [hc]))
  have hshows : shows ⟨.string double between, []⟩ c = [] := by
    rw [shows, if_pos rfl, hnext]
    rfl
  rw [run_append, code_append, hrun, hcode, code, hshows]
  exact ⟨hnext, rfl⟩

/-! ## Lines that open and close nothing -/

/-- Characters that open and close nothing, in code and out of it, but a line. -/
def isCalm (c : Char) : Bool :=
  isInert c && !(['\\', '$', '{', '}'].contains c)

/-- Behind a character that opens and closes nothing, what is open is as it was. -/
theorem isClosed_next (hc : isCalm c) (s : Scan) : (s.next c).isClosed = s.isClosed := by
  simp only [isCalm, isInert, List.contains_cons, List.contains_nil, Bool.or_false,
    Bool.and_eq_true, Bool.not_eq_true', Bool.or_eq_false_iff, beq_eq_false_iff_ne, ne_eq] at hc
  obtain ⟨⟨hslash, hstar, hdouble, hsingle, htick⟩, hback, hdollar, hopen, hclose⟩ := hc
  obtain ⟨spot, holes⟩ := s
  have hcode : (nextCode holes c).isClosed = holes.isEmpty := by
    unfold nextCode
    cases holes <;> simp [isClosed, hslash, hdouble, hsingle, htick, hopen, hclose]
  cases spot with
  | code => exact hcode.trans (Bool.and_true _).symm
  | slash =>
    have hnext : next ⟨.slash, holes⟩ c = nextCode holes c := (if_neg hslash).trans (if_neg hstar)
    rw [hnext]
    exact hcode.trans (Bool.and_true _).symm
  | line => unfold next; dsimp only; split <;> rfl
  | block star => simp [next, isClosed, hslash]
  | string double escaped => unfold next; dsimp only; split_ifs <;> rfl
  | literal pending =>
    unfold next
    dsimp only
    split_ifs <;> simp_all [isClosed]

theorem isClosed_run (ht : t.all isCalm) (s : Scan) : (s.run t).isClosed = s.isClosed := by
  induction t generalizing s with
  | nil => rfl
  | cons c t ih =>
    rw [List.all_cons, Bool.and_eq_true] at ht
    rw [run, List.foldl_cons, ← isClosed_next ht.1 s]
    exact ih ht.2 _

theorem isClosed_of_inCode (h : s.inCode) : s.isClosed := by
  rcases inCode_iff.1 h with rfl | rfl <;> rfl

/-- The end of a line leads to code, if nothing else is open. -/
theorem next_line (hs : s.isClosed) (hc : isCalm c) : (s.next c).next '\n' = start := by
  obtain ⟨hinert, hcalm⟩ := Bool.and_eq_true_iff.1 hc
  have hback : c ≠ '\\' := by
    rintro rfl
    cases hcalm
  obtain ⟨spot, holes⟩ := s
  obtain ⟨hholes, hspot⟩ := Bool.and_eq_true_iff.1 hs
  obtain rfl : holes = [] := List.isEmpty_iff.1 hholes
  cases spot with
  | code => rw [(next_of_isInert (s := ⟨.code, []⟩) rfl hinert).1]; rfl
  | slash => rw [(next_of_isInert (s := ⟨.slash, []⟩) rfl hinert).1]; rfl
  | line =>
    by_cases hend : isLineEnd c
    · have hnext : next ⟨.line, []⟩ c = start := if_pos hend
      rw [hnext]
      rfl
    · have hnext : next ⟨.line, []⟩ c = ⟨.line, []⟩ := if_neg hend
      rw [hnext]
      rfl
  | block => cases hspot
  | string double escaped =>
    have hstring : next ⟨.string double false, []⟩ '\n' = start := by cases double <;> rfl
    by_cases hescaped : escaped
    · have hnext : next ⟨.string double escaped, []⟩ c = ⟨.string double false, []⟩ :=
        if_pos hescaped
      rw [hnext, hstring]
    · obtain rfl : escaped = false := Bool.not_eq_true _ ▸ hescaped
      by_cases hend : c = quoteMark double ∨ c = '\n' ∨ c = '\r'
      · have hnext : next ⟨.string double false, []⟩ c = start :=
          (if_neg hback).trans (if_pos hend)
        rw [hnext]
        rfl
      · have hnext : next ⟨.string double false, []⟩ c = ⟨.string double false, []⟩ :=
          (if_neg hback).trans (if_neg hend)
        rw [hnext, hstring]
  | literal => cases hspot

/-- Behind a line nothing is open, if nothing else was. -/
theorem run_line {line : Text} (hline : line.all isCalm) (hc : isCalm c) (hs : s.isClosed) :
    s.run (line ++ [c, '\n']) = start := by
  rw [← isClosed_run hline] at hs
  rw [run_append]
  exact next_line hs hc

/-- A line leads to code exactly if nothing else is open. -/
theorem inCode_run_line {line : Text} (hline : line.all isCalm) (hc : isCalm c) (s : Scan) :
    (s.run (line ++ [c, '\n'])).inCode ↔ s.isClosed := by
  constructor
  · intro h
    have hall : (line ++ [c, '\n']).all isCalm := by
      rw [List.all_append, hline, List.all_cons, hc]
      decide
    rw [← isClosed_run hall]
    exact isClosed_of_inCode h
  · intro h
    rw [run_line hline hc h]
    rfl

end Scan

end ModuleServer.Script
