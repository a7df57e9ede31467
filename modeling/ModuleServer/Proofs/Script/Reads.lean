import Mathlib.Data.List.Forall2
import Mathlib.Tactic.SplitIfs
import ModuleServer.Proofs.Script.Term
import ModuleServer.Proofs.Text.Run

/-!
# Literal code is read back

What literal code is read as, whatever is open around it and whatever follows.

* `readString?_flatMap_escape`: a quoted text is read as the text.
* `Runs` says what a stretch of code does to a reading, `Reads` that a stretch is one term.
* `Enclosure.runs`: the items between two brackets are read one by one.
-/

namespace ModuleServer.Script

open Text
open List (Forall₂)

/-! ## Strings -/

/-- What is written for a character is read as the character. -/
theorem readString?_escape (c : Char) (rest : Text) :
    readString? (escape c ++ rest) = (readString? rest).map fun (s, rest) => (c :: s, rest) := by
  unfold escape
  split_ifs with hquote hback hline hreturn htab hseparator hparagraph
  · subst hquote
    rfl
  · subst hback
    rfl
  · subst hline
    rfl
  · subst hreturn
    rfl
  · subst htab
    rfl
  · subst hseparator
    rfl
  · subst hparagraph
    rfl
  · -- any other character stands for itself
    have hplain : ¬(c = '\\' || isLineEnd c) := by
      simp [isLineEnd, hback, hline, hreturn, hseparator, hparagraph]
    rw [List.singleton_append, readString?, if_neg hplain]
    · exact hquote
    · exact fun _ _ _ _ _ h => (hback h).elim
    · exact fun _ _ h => (hback h).elim

/-- A quoted text is read as the text. -/
theorem readString?_flatMap_escape (t rest : Text) :
    readString? (t.flatMap escape ++ '"' :: rest) = some (t, rest) := by
  induction t with
  | nil => rfl
  | cons c t ih =>
    rw [List.flatMap_cons, List.append_assoc, readString?_escape, ih, Option.map_some]

/-! ## Stretches of code -/

theorem classes_of_isBlank {c : Char} (h : isBlank c) :
    isPlainStart c = false ∧ isPlainChar c = false :=
  forall_blank (P := fun c => isPlainStart c = false ∧ isPlainChar c = false) (by decide) h

theorem headIs_blanks {blanks rest : Text} (h : blanks.all isBlank)
    (hrest : headIs isPlainChar rest = false) : headIs isPlainChar (blanks ++ rest) = false := by
  cases blanks with
  | nil => exact hrest
  | cons c blanks =>
    rw [List.all_cons, Bool.and_eq_true] at h
    exact (classes_of_isBlank h.1).2

/-- In front of `rest`, the text takes a reading from `r` to `r'`. -/
def Runs (t rest : Text) (r r' : Reading) : Prop :=
  ∃ found, tokens (t ++ rest) = found ++ tokens rest ∧ found.foldlM Reading.step r = some r'

namespace Runs

variable {t u rest : Text} {r r' r'' : Reading}

theorem append (ht : Runs t (u ++ rest) r r') (hu : Runs u rest r' r'') :
    Runs (t ++ u) rest r r'' := by
  obtain ⟨found, htokens, hsteps⟩ := ht
  obtain ⟨found', htokens', hsteps'⟩ := hu
  refine ⟨found ++ found', ?_, ?_⟩
  · rw [List.append_assoc, htokens, htokens', List.append_assoc]
  · rw [List.foldlM_append, hsteps]
    exact hsteps'

theorem blanks (ht : t.all isBlank) : Runs t rest r r := by
  refine ⟨[], ?_, rfl⟩
  induction t with
  | nil => rfl
  | cons c t ih =>
    rw [List.all_cons, Bool.and_eq_true] at ht
    rw [List.cons_append, tokens, if_pos ht.1, ih ht.2]

theorem token (found : Token) (htokens : tokens (t ++ rest) = found :: tokens rest)
    (hstep : r.step found = some r') : Runs t rest r r' := by
  refine ⟨[found], htokens, ?_⟩
  rw [List.foldlM_cons, hstep]
  rfl

theorem mark {c : Char} (hc : (isBlank c || isPlainStart c || c = '"') = false)
    (hstep : r.step (mark c) = some r') : Runs [c] rest r r' := by
  rw [Bool.or_eq_false_iff, Bool.or_eq_false_iff, decide_eq_false_iff_not] at hc
  obtain ⟨⟨hblank, hname⟩, hquote⟩ := hc
  refine token (Script.mark c) ?_ hstep
  rw [List.singleton_append, tokens, if_neg (by simp [hblank]), if_neg (by simp [hname]),
    if_neg hquote]

theorem comma (hstep : r.comma = some r') : Runs [','] rest r r' :=
  mark (by decide) hstep

theorem colon (hstep : r.colon = some r') : Runs [':'] rest r r' :=
  mark (by decide) hstep

theorem opening {b : Bracket} (hstep : r.openBracket b = some r') : Runs [b.opening] rest r r' := by
  cases b with
  | round => exact mark (by decide) hstep
  | square => exact mark (by decide) hstep
  | curly => exact mark (by decide) hstep

theorem closing {b : Bracket} (hstep : r.closeBracket b = some r') :
    Runs [b.closing] rest r r' := by
  cases b with
  | round => exact mark (by decide) hstep
  | square => exact mark (by decide) hstep
  | curly => exact mark (by decide) hstep

theorem name (ht : isPlainName t) (hrest : headIs isPlainChar rest = false)
    (frames : List Frame) : Runs t rest ⟨frames, none⟩ ⟨frames, some (.name t)⟩ := by
  refine token (.name t) ?_ rfl
  cases t with
  | nil => simp [isPlainName] at ht
  | cons c t =>
    rw [isPlainName, Bool.and_eq_true] at ht
    have hblank : ¬isBlank c := fun h => by simp [classes_of_isBlank h] at ht
    rw [List.cons_append, tokens, if_neg hblank, if_pos ht.1, takeWhile_run ht.2 hrest,
      dropWhile_run ht.2 hrest]

theorem quote (t rest : Text) (frames : List Frame) :
    Runs (quote t) rest ⟨frames, none⟩ ⟨frames, some (.string t)⟩ := by
  refine token (.string t) ?_ rfl
  have hread := readString?_flatMap_escape t rest
  rw [Script.quote, List.cons_append, List.append_assoc, List.singleton_append, tokens,
    if_neg (by decide), if_neg (by decide), if_pos rfl]
  split
  · rename_i hsome
    obtain ⟨rfl, rfl⟩ := Prod.mk.inj (Option.some.inj (hread.symm.trans hsome))
    rfl
  · rename_i hnone
    exact absurd (hread.symm.trans hnone) (Option.some_ne_none _)

end Runs

/-! ## Brackets -/

/-- A bracket as it is read: the reading before it, those before and behind each of its items, given
the items before, and the one behind it. Items are given last first. -/
structure Enclosure (α : Type) where
  /-- Kind of the bracket. -/
  bracket : Bracket
  /-- Before the bracket. -/
  before : Reading
  /-- Before an item. -/
  inside : List α → Reading
  /-- Behind an item. -/
  behind : α → List α → Reading
  /-- Behind the bracket. -/
  complete : List α → Reading
  opens : before.openBracket bracket = some (inside [])
  goesOn : ∀ a done, (behind a done).comma = some (inside (a :: done))
  closes : ∀ a done, (behind a done).closeBracket bracket = some (complete (a :: done))

namespace Enclosure

variable {α : Type} (e : Enclosure α)
variable {texts : List Text} {items : List α} {first blanks last : Text}

/-- Inside the bracket, the text is read as an item, whatever items have been read before. -/
def ReadsItem (t : Text) (a : α) : Prop :=
  ∀ rest done, headIs isPlainChar rest = false → Runs t rest (e.inside done) (e.behind a done)

/-- Items with commas between them are read one by one. -/
theorem runs_joined (hblanks : blanks.all isBlank) (hitems : Forall₂ e.ReadsItem texts items)
    (hne : items ≠ []) (done : List α) {rest : Text} (hrest : headIs isPlainChar rest = false) :
    ∃ a others, a :: others = items.reverse ++ done ∧
      Runs (joined (',' :: blanks) texts) rest (e.inside done) (e.behind a others) := by
  induction hitems generalizing done with
  | nil => exact absurd rfl hne
  | @cons t a texts items ht hitems ih =>
    cases hitems with
    | nil => exact ⟨a, done, rfl, ht rest done hrest⟩
    | @cons u b texts items hu hitems =>
      obtain ⟨last, others, hlast, hruns⟩ := ih (List.cons_ne_nil b items) (a :: done)
      refine ⟨last, others, ?_, ?_⟩
      · rw [hlast, List.reverse_cons (a := a), List.append_assoc, List.singleton_append]
      · -- behind the comma the items before count one more
        have hcomma : Runs (',' :: blanks) (joined (',' :: blanks) (u :: texts) ++ rest)
            (e.behind a done) (e.inside (a :: done)) := .append (.comma (e.goesOn a done))
          (.blanks hblanks)
        rw [joined, List.append_assoc]
        exact .append (ht _ done rfl) (.append hcomma hruns)

/-- The items between two brackets are read one by one. -/
theorem runs (hfirst : first.all isBlank) (hblanks : blanks.all isBlank) (hlast : last.all isBlank)
    (hitems : Forall₂ e.ReadsItem texts items) (hne : items ≠ []) (rest : Text) :
    Runs (e.bracket.opening :: (first ++ joined (',' :: blanks) texts ++
      (last ++ [e.bracket.closing]))) rest e.before (e.complete items.reverse) := by
  have hstop : headIs isPlainChar (last ++ [e.bracket.closing] ++ rest) = false := by
    rw [List.append_assoc]
    refine headIs_blanks hlast ?_
    cases e.bracket <;> rfl
  obtain ⟨a, others, hothers, hruns⟩ := e.runs_joined hblanks hitems hne [] hstop
  rw [List.append_nil] at hothers
  rw [← hothers]
  exact .append (.opening e.opens) (.append (.append (.blanks hfirst) hruns)
    (.append (.blanks hlast) (.closing (e.closes a others))))

end Enclosure

/-! ## Terms -/

/-- The text is read as the term, wherever a term may stand. -/
def Reads (t : Text) (term : Term) : Prop :=
  ∀ rest frames, headIs isPlainChar rest = false → takesTerm frames →
    Runs t rest ⟨frames, none⟩ ⟨frames, some term⟩

theorem reads_name {t : Text} (ht : isPlainName t) : Reads t (.name t) :=
  fun _ frames hrest _ => .name ht hrest frames

theorem reads_quote (t : Text) : Reads (quote t) (.string t) :=
  fun rest frames _ _ => .quote t rest frames

namespace Enclosure

/-- The bracket of a call. -/
def call (function : Text) (frames : List Frame) (h : takesTerm frames) : Enclosure Term where
  bracket := .round
  before := ⟨frames, some (.name function)⟩
  inside done := ⟨.call function done :: frames, none⟩
  behind term done := ⟨.call function done :: frames, some term⟩
  complete done := ⟨frames, some (.call function done.reverse)⟩
  opens := if_pos h
  goesOn _ _ := rfl
  closes _ _ := rfl

/-- The bracket of an array. -/
def array (frames : List Frame) (h : takesTerm frames) : Enclosure Term where
  bracket := .square
  before := ⟨frames, none⟩
  inside done := ⟨.array done :: frames, none⟩
  behind term done := ⟨.array done :: frames, some term⟩
  complete done := ⟨frames, some (.array done.reverse)⟩
  opens := if_pos h
  goesOn _ _ := rfl
  closes _ _ := rfl

/-- The bracket of an object. -/
def object (frames : List Frame) (h : takesTerm frames) : Enclosure (Text × Term) where
  bracket := .curly
  before := ⟨frames, none⟩
  inside done := ⟨.object done :: frames, none⟩
  behind entry done := ⟨.entry entry.1 done :: frames, some entry.2⟩
  complete done := ⟨frames, some (.object done.reverse)⟩
  opens := if_pos h
  goesOn _ _ := rfl
  closes _ _ := rfl

end Enclosure

/-- The key of an entry, with its colon. -/
theorem runs_key (key rest : Text) (entries : List (Text × Term)) (frames : List Frame) :
    Runs (Script.key key ++ [':', ' ']) rest ⟨.object entries :: frames, none⟩
      ⟨.entry key entries :: frames, none⟩ := by
  have hblank : [' '].all isBlank := by decide
  rw [Script.key]
  split
  · rename_i hkey
    exact .append (.name hkey rfl _) (.append (t := [':']) (.colon rfl) (.blanks hblank))
  · exact .append (.quote key _ _) (.append (t := [':']) (.colon rfl) (.blanks hblank))

/-- The term is what the text says if nothing but blanks is behind it. -/
theorem Reads.read?_eq {t blanks : Text} {term : Term} (h : Reads t term)
    (hblanks : blanks.all isBlank) : Term.read? (t ++ blanks) = some term := by
  have hstop : headIs isPlainChar (blanks ++ []) = false := headIs_blanks hblanks rfl
  have hend : tokens [] = [] := by
    rw [tokens]
  obtain ⟨found, htokens, hsteps⟩ := (h (blanks ++ []) [] hstop rfl).append (.blanks hblanks)
  rw [List.append_nil, hend, List.append_nil] at htokens
  rw [Term.read?, htokens, hsteps]

end ModuleServer.Script
