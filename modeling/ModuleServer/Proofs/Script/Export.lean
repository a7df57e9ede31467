import Mathlib.Logic.Basic
import ModuleServer.Proofs.Script.Code

/-!
# Default exports of a script

A default export is the word `export` and, behind white space and comments, the word `default`, both
outside of comments and literals (`IsDefaultExport`). How many there are is told from the words and
marks of the code (`defaultExports`), and where there is one it stands somewhere in the script
(`exists_isDefaultExport`).
-/

namespace ModuleServer.Script

open Text Scan
open Expression (isNameChar isNameChar_of_white isWhite_of_isNameChar headIs_append)

/-! ## Words and marks -/

/-- A word, unless it is empty. -/
def wordBefore (word : Text) : List Text :=
  if word.isEmpty then [] else [word]

/-- The words and the marks of a text without white space, where `word` is what stands before it of
its first word. -/
def lexemesFrom (word : Text) : Text → List Text
  | [] => wordBefore word
  | c :: t =>
    if isNameChar c then lexemesFrom (word ++ [c]) t
    else wordBefore word ++ ((if isWhite c then [] else [[c]]) ++ lexemesFrom [] t)

/-- The words and the marks of a text. -/
def lexemes (t : Text) : List Text :=
  lexemesFrom [] t

section Lexemes

variable {c : Char} {t u word : Text}

theorem lexemesFrom_name (h : word.all isNameChar) (before t : Text) :
    lexemesFrom before (word ++ t) = lexemesFrom (before ++ word) t := by
  induction word generalizing before with
  | nil => rw [List.nil_append, List.append_nil]
  | cons c word ih =>
    rw [List.all_cons, Bool.and_eq_true] at h
    rw [List.cons_append, lexemesFrom, if_pos h.1, ih h.2, List.append_assoc]
    rfl

theorem lexemesFrom_other (hc : isNameChar c = false) (word t : Text) :
    lexemesFrom word (c :: t) =
      wordBefore word ++ ((if isWhite c then [] else [[c]]) ++ lexemes t) := by
  rw [lexemesFrom, if_neg (by simp [hc])]
  rfl

/-- A word ends where no name goes on. -/
theorem lexemesFrom_of_headIs (h : headIs isNameChar t = false) (word : Text) :
    lexemesFrom word t = wordBefore word ++ lexemes t := by
  cases t with
  | nil => exact (List.append_nil _).symm
  | cons c t =>
    have hc : isNameChar c = false := h
    rw [lexemes, lexemesFrom_other hc, lexemesFrom_other hc]
    rfl

/-- The lexemes of two texts of which the second does not go on with a name. -/
theorem lexemes_append_of_headIs (t : Text) (h : headIs isNameChar u = false) :
    lexemes (t ++ u) = lexemes t ++ lexemes u := by
  have hfrom : ∀ word, lexemesFrom word (t ++ u) = lexemesFrom word t ++ lexemes u := by
    induction t with
    | nil => exact lexemesFrom_of_headIs h
    | cons c t ih =>
      intro word
      rw [List.cons_append, lexemesFrom, lexemesFrom]
      split
      · exact ih _
      · rw [ih, List.append_assoc, List.append_assoc]
  exact hfrom []

/-- The lexemes of two texts of which the first does not end in a name. -/
theorem lexemes_append_of_ends (h : headIs isNameChar t.reverse = false) (u : Text) :
    lexemes (t ++ u) = lexemes t ++ lexemes u := by
  rcases List.eq_nil_or_concat t with rfl | ⟨front, c, rfl⟩
  · rfl
  · rw [List.concat_eq_append, List.reverse_append] at h
    have hc : isNameChar c = false := h
    have hhead : ∀ u, headIs isNameChar (c :: u) = false := fun _ => hc
    have hone : ∀ u, lexemes (c :: u) = (if isWhite c then [] else [[c]]) ++ lexemes u :=
      lexemesFrom_other hc []
    rw [List.concat_eq_append, List.append_assoc, List.singleton_append,
      lexemes_append_of_headIs front (hhead u), lexemes_append_of_headIs front (hhead []), hone,
      hone, List.append_assoc, List.append_assoc]
    rfl

theorem lexemes_word (hne : word ≠ []) (h : word.all isNameChar)
    (ht : headIs isNameChar t = false) :
    lexemes (word ++ t) = word :: lexemes t := by
  rw [lexemes, lexemesFrom_name h, lexemesFrom_of_headIs ht, List.nil_append, wordBefore]
  simp [hne]

theorem lexemes_white (h : t.all isWhite) : lexemes t = [] := by
  induction t with
  | nil => rfl
  | cons c t ih =>
    rw [List.all_cons, Bool.and_eq_true] at h
    rw [lexemes, lexemesFrom_other (isNameChar_of_white h.1), if_pos h.1, ih h.2]
    rfl

theorem lexemes_append_white (h : t.all isWhite) (u : Text) : lexemes (t ++ u) = lexemes u := by
  have hends : headIs isNameChar t.reverse = false :=
    headIs_eq_false fun c hc => isNameChar_of_white (List.all_eq_true.1 h c (List.mem_reverse.1 hc))
  rw [lexemes_append_of_ends hends, lexemes_white h, List.nil_append]

/-- Lexemes are made of characters of the text. -/
theorem mem_of_mem_lexemesFrom {before : Text} (hword : word ∈ lexemesFrom before t) :
    ∀ c ∈ word, c ∈ before ++ t := by
  induction t generalizing before with
  | nil =>
    rw [lexemesFrom, wordBefore] at hword
    split at hword
    · cases hword
    · rw [List.mem_singleton.1 hword]
      exact fun c hc => List.mem_append_left _ hc
  | cons d t ih =>
    rw [lexemesFrom] at hword
    split at hword
    · have hall := ih hword
      rw [List.append_assoc] at hall
      exact hall
    · intro c hc
      rcases List.mem_append.1 hword with hfirst | hrest
      · rw [wordBefore] at hfirst
        split at hfirst
        · cases hfirst
        · rw [List.mem_singleton.1 hfirst] at hc
          exact List.mem_append_left _ hc
      · refine List.mem_append_right _ ?_
        rcases List.mem_append.1 hrest with hmark | hbehind
        · split at hmark
          · cases hmark
          · rw [List.mem_singleton.1 hmark] at hc
            rw [List.mem_singleton.1 hc]
            exact List.mem_cons_self
        · exact List.mem_cons_of_mem _ (ih hbehind c hc)

theorem lexemesFrom_ne_nil (hne : word ≠ []) (t : Text) : lexemesFrom word t ≠ [] := by
  have hword : wordBefore word ≠ [] := by
    rw [wordBefore, if_neg (by simpa using hne)]
    exact List.cons_ne_nil _ _
  induction t generalizing word with
  | nil => exact hword
  | cons c t ih =>
    rw [lexemesFrom]
    split
    · refine ih (by simp) ?_
      rw [wordBefore, if_neg (by simp)]
      exact List.cons_ne_nil _ _
    · exact List.append_ne_nil_of_left_ne_nil hword _

theorem white_of_lexemes (h : lexemes t = []) : t.all isWhite := by
  induction t with
  | nil => rfl
  | cons c t ih =>
    rw [lexemes, lexemesFrom] at h
    split at h
    · exact absurd h (lexemesFrom_ne_nil (by simp) t)
    · split at h
      · rename_i hc
        rw [List.all_cons, hc, Bool.true_and]
        exact ih h
      · cases h

/-- Whether a word stands by itself in a text, with the lexemes `first` before it and `last`
behind it. -/
def StandsBetween (word t : Text) (first last : List Text) : Prop :=
  ∃ front rest, t = front ++ (word ++ rest) ∧ headIs isNameChar front.reverse = false ∧
    headIs isNameChar rest = false ∧ lexemes front = first ∧ lexemes rest = last

/-- What stands by itself stands so behind a name and a character that parts as well. -/
theorem StandsBetween.behind {before : Text} {first last : List Text} (hc : isNameChar c = false)
    (hbefore : before.all isNameChar) (h : StandsBetween word t first last) :
    StandsBetween word (before ++ c :: t)
      (wordBefore before ++ ((if isWhite c then [] else [[c]]) ++ first)) last := by
  obtain ⟨front, rest, rfl, hfront, hrest, rfl, hlast⟩ := h
  refine ⟨before ++ c :: front, rest, by rw [List.append_assoc]; rfl, ?_, hrest, ?_, hlast⟩
  · rw [List.reverse_append, List.reverse_cons]
    cases hreverse : front.reverse with
    | nil => exact hc
    | cons d back =>
      rw [hreverse] at hfront
      exact hfront
  · rw [lexemes, lexemesFrom_name hbefore, List.nil_append, lexemesFrom_other hc]

/-- A word among the lexemes stands by itself in the text. -/
theorem standsBetween_of_lexemesFrom {before : Text} {first last : List Text}
    (hword : headIs isNameChar word) (hbefore : before.all isNameChar)
    (h : lexemesFrom before t = first ++ word :: last) :
    StandsBetween word (before ++ t) first last := by
  induction t generalizing before first with
  | nil =>
    rw [lexemesFrom, wordBefore] at h
    split at h
    · simp at h
    · obtain ⟨rfl, hlast⟩ := List.append_eq_singleton_iff.1 h.symm |>.resolve_right (by simp)
      obtain ⟨rfl, rfl⟩ := List.cons.inj hlast
      exact ⟨[], [], rfl, rfl, rfl, rfl, rfl⟩
  | cons c t ih =>
    cases hc : isNameChar c with
    | true =>
      rw [lexemesFrom, if_pos hc] at h
      have hall : (before ++ [c]).all isNameChar := by simp [hbefore, hc]
      have hstands := ih hall h
      rw [List.append_assoc] at hstands
      exact hstands
    | false =>
      -- `c` is white space, or a lexeme before the word
      have hmark : ∀ more, (if isWhite c then [] else [[c]]) ++ lexemes t = more ++ word :: last →
          StandsBetween word (before ++ c :: t) (wordBefore before ++ more) last := by
        intro more hmore
        by_cases hwhite : isWhite c
        · rw [if_pos hwhite] at hmore
          have hstands := (ih List.all_nil hmore).behind hc hbefore
          rw [if_pos hwhite] at hstands
          exact hstands
        · rw [if_neg hwhite] at hmore
          rcases more with _ | ⟨mark, more⟩
          · obtain ⟨rfl, -⟩ := List.cons.inj hmore
            exact absurd (hc.symm.trans hword) (by decide)
          · obtain ⟨rfl, hrest⟩ := List.cons.inj hmore
            have hstands := (ih List.all_nil hrest).behind hc hbefore
            rw [if_neg hwhite] at hstands
            exact hstands
      rw [lexemesFrom_other hc] at h
      by_cases hempty : before = []
      · subst hempty
        exact hmark first h
      · have hone : wordBefore before = [before] := if_neg (by simpa using hempty)
        rw [hone] at h
        rcases first with _ | ⟨next, first⟩
        · obtain ⟨rfl, hlast⟩ := List.cons.inj h
          refine ⟨[], c :: t, rfl, rfl, hc, rfl, ?_⟩
          rw [← hlast, lexemes, lexemesFrom_other hc]
          rfl
        · obtain ⟨rfl, hmore⟩ := List.cons.inj h
          have hstands := hmark first hmore
          rw [hone] at hstands
          exact hstands

/-! ## Lexemes of code -/

/-- The lexemes of code, parted where no name goes on. -/
theorem lexemes_code_append_of_headIs (s : Scan) (t : Text) (h : headIs isNameChar u = false) :
    lexemes (s.code (t ++ u)) = lexemes (s.code t) ++ lexemes ((s.run t).code u) := by
  rw [code_append]
  refine lexemes_append_of_headIs _ ?_
  by_cases hrun : s.run t = start
  · rw [hrun, headIs_code_start]
    exact h
  · exact headIs_code_of_ne hrun u

/-- The lexemes of code, parted where no name ends. -/
theorem lexemes_code_append_of_ends (s : Scan) (h : headIs isNameChar t.reverse = false)
    (u : Text) :
    lexemes (s.code (t ++ u)) = lexemes (s.code t) ++ lexemes ((s.run t).code u) := by
  rw [code_append]
  by_cases hrun : s.run t = start
  · by_cases hempty : t = []
    · rw [hempty]
      rfl
    · have hends := ends_code s hempty (by rw [hrun]; rfl)
      have hheld : start.held = [] := rfl
      rw [hrun, hheld, List.append_nil, h] at hends
      exact lexemes_append_of_ends hends _
  · exact lexemes_append_of_headIs _ (headIs_code_of_ne hrun u)

/-- A word is no lexeme of code in which one of its characters is missing. -/
theorem not_mem_lexemes_code (s : Scan) (hc : isNameChar c) (hword : c ∈ word) (ht : c ∉ t) :
    word ∉ lexemes (s.code t) := fun h =>
  ht (mem_of_mem_code hc (mem_of_mem_lexemesFrom h c hword))

end Lexemes

/-! ## Counting -/

/-- The word that exports. -/
def exportWord : Text := "export".toList

/-- The word that makes an export the default one. -/
def defaultWord : Text := "default".toList

/-- How often the two words of a default export stand one behind the other. -/
def exportsIn : List Text → Nat
  | [] => 0
  | [_] => 0
  | first :: second :: rest =>
    (if first = exportWord ∧ second = defaultWord then 1 else 0) + exportsIn (second :: rest)

/-- How many default exports a script has outside of comments and literals. -/
def defaultExports (script : Text) : Nat :=
  exportsIn (lexemes (start.code script))

section Counting

variable {first last : List Text}

theorem exportsIn_append (h : first.getLast? = some exportWord → last.head? ≠ some defaultWord) :
    exportsIn (first ++ last) = exportsIn first + exportsIn last := by
  induction first with
  | nil => rw [List.nil_append, exportsIn, Nat.zero_add]
  | cons word first ih =>
    cases first with
    | nil =>
      cases last with
      | nil => rfl
      | cons next last =>
        have hnot : ¬(word = exportWord ∧ next = defaultWord) := by
          rintro ⟨rfl, rfl⟩
          exact h rfl rfl
        simp only [List.singleton_append, exportsIn, if_neg hnot]
    | cons next first =>
      have hrest := ih h
      rw [List.cons_append] at hrest
      rw [List.cons_append, List.cons_append, exportsIn, hrest, exportsIn, Nat.add_assoc]

theorem exists_of_exportsIn {words : List Text} (h : 0 < exportsIn words) :
    ∃ first last, words = first ++ exportWord :: defaultWord :: last := by
  fun_induction exportsIn words with
  | case1 => cases h
  | case2 => cases h
  | case3 word next rest ih =>
    by_cases hpair : word = exportWord ∧ next = defaultWord
    · obtain ⟨rfl, rfl⟩ := hpair
      exact ⟨[], rest, rfl⟩
    · rw [if_neg hpair, Nat.zero_add] at h
      obtain ⟨first, last, hrest⟩ := ih h
      exact ⟨word :: first, last, by rw [hrest]; rfl⟩

theorem exportsIn_eq_zero (h : exportWord ∉ first) : exportsIn first = 0 := by
  fun_induction exportsIn first with
  | case1 => rfl
  | case2 => rfl
  | case3 word next rest ih =>
    obtain ⟨hword, hrest⟩ := not_or.1 (List.mem_cons.not.1 h)
    rw [if_neg fun hpair => hword hpair.1.symm, ih hrest]

/-- Words without the first of the two have none, whatever follows. -/
theorem exportsIn_append_left (h : exportWord ∉ first) (last : List Text) :
    exportsIn (first ++ last) = exportsIn last := by
  rw [exportsIn_append fun hlast => absurd (List.mem_of_getLast? hlast) h, exportsIn_eq_zero h,
    Nat.zero_add]

/-- The words around a default export have as many as there are beside it. -/
theorem exportsIn_around (first last : List Text) :
    exportsIn (first ++ exportWord :: defaultWord :: last) =
      exportsIn first + 1 + exportsIn last := by
  have hlast : exportsIn (exportWord :: defaultWord :: last) = 1 + exportsIn last := by
    have hne : [defaultWord].getLast? ≠ some exportWord := by decide
    have hdefault : exportsIn ([defaultWord] ++ last) = 0 + exportsIn last :=
      exportsIn_append fun h => absurd h hne
    rw [Nat.zero_add] at hdefault
    rw [exportsIn, if_pos ⟨rfl, rfl⟩]
    exact congrArg (1 + ·) hdefault
  have hhead : (exportWord :: defaultWord :: last).head? ≠ some defaultWord := fun h =>
    absurd (Option.some.inj h) (by decide)
  rw [exportsIn_append fun _ => hhead, hlast, Nat.add_assoc]

end Counting

/-! ## Where a default export stands -/

/-- Whether the default export of a script stands between `before` and `behind`, with `gap` between
its two words. -/
structure IsDefaultExport (script before gap behind : Text) : Prop where
  /-- The text of the script. -/
  text : script = before ++ (exportWord ++ (gap ++ (defaultWord ++ behind)))
  /-- It stands in code. -/
  inCode : (start.run before).inCode
  /-- Its first word does not go on with a name. -/
  starts : headIs isNameChar before.reverse = false
  /-- There is something between its words. -/
  gap_ne : gap ≠ []
  /-- All that is open there ends there. -/
  gap_run : start.run gap = start
  /-- There is nothing but white space and comments. -/
  gap_white : isWhiteOnly (start.code gap)
  /-- No name goes on with its second word. -/
  ends : headIs isNameChar behind = false

section Place

variable {script before gap behind : Text}

/-- Where there is a default export, it stands somewhere in the script. -/
theorem exists_isDefaultExport (h : 0 < defaultExports script) :
    ∃ before gap behind, IsDefaultExport script before gap behind := by
  obtain ⟨first, last, hwords⟩ := exists_of_exportsIn h
  -- the two words stand in the code, with white space between them
  obtain ⟨a, rest, hcode, ha, hrest, -, hlast⟩ := standsBetween_of_lexemesFrom rfl rfl hwords
  have hnext : lexemesFrom [] rest = [] ++ defaultWord :: last := hlast
  obtain ⟨g, b, hgap', -, hb, hg, -⟩ := standsBetween_of_lexemesFrom rfl rfl hnext
  rw [List.nil_append] at hcode hgap'
  -- so they stand in the script, where the scan is in code
  obtain ⟨before, t, rfl, hin, rfl, hcodet⟩ :=
    exists_word_of_code (List.cons_ne_nil _ _) (by decide) hcode
  rw [hgap'] at hcodet
  obtain ⟨gap, behind, rfl, hingap, hcodegap, rfl⟩ :=
    exists_word_of_code (List.cons_ne_nil _ _) (by decide) hcodet
  have hwhite : g.all isWhite := white_of_lexemes hg
  have hgap : start.run gap = start := by
    -- a slash that is held would be shown in the gap
    rcases inCode_iff.1 hingap with hstart | hslash
    · exact hstart
    · rw [hslash] at hcodegap
      rw [← hcodegap, List.all_append, Bool.and_eq_true] at hwhite
      exact absurd hwhite.2 (by decide)
  refine ⟨before, gap, behind, rfl, hin, ?_, ?_, hgap, ?_, ?_⟩
  · rcases List.eq_nil_or_concat before with rfl | ⟨front, c, rfl⟩
    · rfl
    · rw [← ends_code start (by simp) hin]
      exact ha
  · -- without a gap, the first word would go on with the second
    rintro rfl
    obtain rfl : [] = g := hcodegap
    rw [hgap'] at hrest
    cases hrest
  · rw [hgap, held, if_neg (by decide), List.append_nil] at hcodegap
    rw [hcodegap]
    exact hwhite
  · rw [← headIs_code_start]
    exact hb

/-- The code of a script with a default export, and where its scan ends. -/
theorem IsDefaultExport.code_eq (h : IsDefaultExport script before gap behind) :
    start.code script = start.code before ++ (start.run before).held ++ (exportWord ++
        (start.code gap ++ (defaultWord ++ start.code behind))) ∧
      start.run script = start.run behind := by
  obtain ⟨hrun, hcode⟩ := run_of_inCode (t := exportWord) h.inCode (by decide) (by decide)
  obtain ⟨hrun', hcode'⟩ := run_of_isInert (t := defaultWord) (by decide)
  rw [h.text]
  simp only [code_append, run_append, hrun, hcode, h.gap_run, hrun', hcode', List.append_assoc,
    and_self]

/-- What stands before a default export does not end in a name, in the code of the script either. -/
theorem IsDefaultExport.starts_code (h : IsDefaultExport script before gap behind) :
    headIs isNameChar (start.code before ++ (start.run before).held).reverse = false := by
  by_cases hempty : before = []
  · rw [hempty]
    rfl
  · rw [ends_code start hempty h.inCode]
    exact h.starts

/-- The lexemes of a script with a default export. -/
theorem IsDefaultExport.lexemes_eq (h : IsDefaultExport script before gap behind) :
    lexemes (start.code script) = lexemes (start.code before ++ (start.run before).held) ++
      exportWord :: defaultWord :: lexemes (start.code behind) := by
  have hbehind : headIs isNameChar (start.code behind) = false := by
    rw [headIs_code_start]
    exact h.ends
  have hgap : ∀ t, headIs isNameChar (start.code gap ++ t) = false := by
    intro t
    have hwhite := h.gap_white
    cases hcode : start.code gap with
    | nil =>
      have hin : (start.run gap).inCode := by
        rw [h.gap_run]
        rfl
      have hnone : start.code gap ++ (start.run gap).held = [] := by
        rw [h.gap_run, hcode]
        rfl
      exact absurd (eq_nil_of_code hin hnone) h.gap_ne
    | cons c g =>
      rw [hcode, isWhiteOnly, List.all_cons, Bool.and_eq_true] at hwhite
      exact isNameChar_of_white hwhite.1
  have hexport : exportWord ≠ [] := List.cons_ne_nil _ _
  have hdefault : defaultWord ≠ [] := List.cons_ne_nil _ _
  rw [h.code_eq.1, lexemes_append_of_ends h.starts_code,
    lexemes_word hexport (by decide) (hgap _), lexemes_append_white h.gap_white,
    lexemes_word hdefault (by decide) hbehind]

/-- A script with a default export has as many as there are beside it. -/
theorem IsDefaultExport.defaultExports_eq (h : IsDefaultExport script before gap behind) :
    defaultExports script =
      exportsIn (lexemes (start.code before ++ (start.run before).held)) + 1 +
        exportsIn (lexemes (start.code behind)) := by
  rw [defaultExports, h.lexemes_eq, exportsIn_around]

/-- What is written in the place of a default export, if nothing starts in it, parts what stands
before from what stands behind. -/
theorem IsDefaultExport.lexemes_replace (h : IsDefaultExport script before gap behind) {t : Text}
    (hne : t ≠ []) (ht : t.all isInert) (hends : headIs isNameChar t.reverse = false)
    (rest : Text) :
    start.run (before ++ (t ++ rest)) = start.run rest ∧
      lexemes (start.code (before ++ (t ++ rest))) =
        lexemes (start.code before ++ (start.run before).held) ++
          (lexemes t ++ lexemes (start.code rest)) := by
  obtain ⟨hrun, hcode⟩ := run_of_inCode h.inCode ht hne
  constructor
  · rw [run_append, run_append, hrun]
  · rw [code_append, code_append, hrun, hcode, List.append_assoc, ← List.append_assoc,
      lexemes_append_of_ends h.starts_code, lexemes_append_of_ends hends]

end Place

end ModuleServer.Script
