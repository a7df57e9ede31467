import Mathlib.Data.List.Induction
import Mathlib.Data.List.TakeWhile
import ModuleServer.Import.Statement

/-!
# The shape of what a scan finds

The scan for statements walks from character to character. This module says without the walk what
it finds.

* `Opens`: where a statement may start, from the text before it (`opens_iff`).
* `IsHead`: what stands before the literal of a statement. No quote occurs in it.
* `statement?_eq_some_iff`: the scan finds a literal exactly behind a head, if it closes on its
  line.
-/

namespace ModuleServer.Import

open Text

/-! ## Where a statement may start -/

/-- The text is the start of a line up to blanks, or ends with a semicolon up to blanks. `first` says
that nothing stands before it. -/
def Opens (first : Bool) (t : Text) : Prop :=
  ∃ u gap, t = u ++ gap ∧ (∀ c ∈ gap, isBlank c) ∧
    ((u = [] ∧ first) ∨ u.getLast? = some '\n' ∨ u.getLast? = some ';')

theorem opens_nil {first : Bool} : Opens first [] ↔ first := by
  constructor
  · rintro ⟨u, gap, heq, -, hu⟩
    obtain ⟨rfl, rfl⟩ := List.append_eq_nil_iff.1 heq.symm
    simpa using hu
  · intro h
    exact ⟨[], [], rfl, by simp, Or.inl ⟨rfl, h⟩⟩

theorem opens_concat {first : Bool} {t : Text} {c : Char} :
    Opens first (t ++ [c]) ↔ c = '\n' ∨ c = ';' ∨ (Opens first t ∧ isBlank c) := by
  constructor
  · rintro ⟨u, gap, heq, hgap, hu⟩
    rcases List.eq_nil_or_concat gap with rfl | ⟨gap, d, rfl⟩
    · -- the last character is the one that opens
      rw [List.append_nil] at heq
      subst heq
      rw [List.getLast?_concat] at hu
      rcases hu with ⟨hnil, -⟩ | hu | hu
      · simp at hnil
      · exact Or.inl (Option.some.inj hu)
      · exact Or.inr (Or.inl (Option.some.inj hu))
    · rw [List.concat_eq_append, ← List.append_assoc] at heq
      obtain ⟨rfl, hd⟩ := List.append_inj' heq rfl
      obtain rfl := List.singleton_inj.1 hd
      refine Or.inr (Or.inr ⟨⟨u, gap, rfl, ?_, hu⟩, hgap c (by simp)⟩)
      intro x hx
      exact hgap x (by simp [hx])
  · rintro (rfl | rfl | ⟨⟨u, gap, rfl, hgap, hu⟩, hc⟩)
    · exact ⟨t ++ ['\n'], [], by simp, by simp, by simp⟩
    · exact ⟨t ++ [';'], [], by simp, by simp, by simp⟩
    · refine ⟨u, gap ++ [c], by simp, ?_, hu⟩
      intro x hx
      rcases List.mem_append.1 hx with hx | hx
      · exact hgap x hx
      · rw [List.mem_singleton.1 hx]
        exact hc

/-- The scan keeps track of where a statement may start. -/
theorem opens_iff {first : Bool} {t : Text} : Opens first t ↔ t.foldl startsBehind first = true := by
  -- from the back, since the last character decides first
  induction t using List.reverseRecOn with
  | nil => exact opens_nil
  | append_singleton t c ih =>
    rw [opens_concat, ih, List.foldl_append]
    simp [startsBehind, or_assoc]

instance (first : Bool) (t : Text) : Decidable (Opens first t) :=
  decidable_of_iff _ opens_iff.symm

/-! ## Heads -/

/-- The two quotes. -/
def isQuote (c : Char) : Bool :=
  c = '"' || c = '\''

theorem isQuote_iff {c : Char} : isQuote c ↔ c = '"' ∨ c = '\'' := by
  simp [isQuote]

theorem endsClause_of_isQuote {c : Char} (h : isQuote c) : endsClause c := by
  rcases isQuote_iff.1 h with rfl | rfl <;> decide

theorem isBlank_of_isQuote {c : Char} (h : isQuote c) : isBlank c = false := by
  rcases isQuote_iff.1 h with rfl | rfl <;> decide

/-- What stands before the literal of a statement: one of the two words, text that does not end a
clause, `from` and blanks, all words apart from their neighbours; or the word for imports and
blanks. -/
inductive IsHead : Form → Text → Prop where
  | clause {word between gap : Text} (hword : word = importWord ∨ word = exportWord)
      (hfree : ∀ c ∈ between, endsClause c = false)
      (hfirst : ∃ c, between.head? = some c ∧ isWordChar c = false)
      (hlast : ∃ c, between.getLast? = some c ∧ isWordChar c = false)
      (hgap : ∀ c ∈ gap, isBlank c) : IsHead .clause (word ++ between ++ fromWord ++ gap)
  | sideEffect {gap : Text} (hgap : ∀ c ∈ gap, isBlank c) : IsHead .sideEffect (importWord ++ gap)

theorem IsHead.ne_nil {form : Form} {head : Text} (h : IsHead form head) : head ≠ [] := by
  cases h with
  | clause => simp [fromWord]
  | sideEffect => exact List.append_ne_nil_of_left_ne_nil (by decide) _

theorem isQuote_of_isBlank {c : Char} (h : isBlank c) : isQuote c = false := by
  by_contra hq
  rw [isBlank_of_isQuote (by simpa using hq)] at h
  exact absurd h (by simp)

theorem isQuote_of_endsClause {c : Char} (h : endsClause c = false) : isQuote c = false := by
  by_contra hq
  rw [endsClause_of_isQuote (by simpa using hq)] at h
  exact absurd h (by simp)

/-- The letters of the words neither end a clause nor are blank. -/
theorem classes_of_letter {c : Char} (h : c ∈ importWord ∨ c ∈ exportWord ∨ c ∈ fromWord) :
    endsClause c = false ∧ isBlank c = false := by
  have hall : (importWord ++ exportWord ++ fromWord).all
      (fun c => !endsClause c && !isBlank c) := by decide
  have hc := List.all_eq_true.1 hall c (by simpa [or_assoc] using h)
  simpa using hc

theorem IsHead.no_quote {form : Form} {head : Text} (h : IsHead form head) :
    ∀ c ∈ head, isQuote c = false := by
  have hkey : ∀ c, c ∈ importWord ∨ c ∈ exportWord ∨ c ∈ fromWord → isQuote c = false := by
    intro c hc
    exact isQuote_of_endsClause (classes_of_letter hc).1
  intro c hc
  cases h with
  | clause hword hfree hfirst hlast hgap =>
    simp only [List.mem_append] at hc
    rcases hc with ((hc | hc) | hc) | hc
    · rcases hword with rfl | rfl
      · exact hkey c (Or.inl hc)
      · exact hkey c (Or.inr (Or.inl hc))
    · exact isQuote_of_endsClause (hfree c hc)
    · exact hkey c (Or.inr (Or.inr hc))
    · exact isQuote_of_isBlank (hgap c hc)
  | sideEffect hgap =>
    rcases List.mem_append.1 hc with hc | hc
    · exact hkey c (Or.inl hc)
    · exact isQuote_of_isBlank (hgap c hc)

/-- What stands before the first character of a class is unique. -/
theorem eq_of_first {α : Type} {p : α → Bool} {u u' v v' : List α} {x y : α}
    (h : u ++ x :: v = u' ++ y :: v') (hu : ∀ c ∈ u, p c = false) (hu' : ∀ c ∈ u', p c = false)
    (hx : p x) (hy : p y) : u = u' ∧ x = y ∧ v = v' := by
  induction u generalizing u' with
  | nil =>
    cases u' with
    | nil => simpa using h
    | cons d u' =>
      obtain ⟨rfl, -⟩ := List.cons.inj h
      rw [hu' x (by simp)] at hx
      exact absurd hx (by simp)
  | cons c u ih =>
    cases u' with
    | nil =>
      obtain ⟨rfl, -⟩ := List.cons.inj h
      rw [hu c (by simp)] at hy
      exact absurd hy (by simp)
    | cons d u' =>
      obtain ⟨rfl, hrest⟩ := List.cons.inj h
      have htail := ih hrest (fun a ha => hu a (by simp [ha])) (fun a ha => hu' a (by simp [ha]))
      exact ⟨by rw [htail.1], htail.2⟩

/-! ## Literals -/

/-- A literal of a statement of a form: it stands behind a head, and closes on its line. -/
structure Literal.Found (form : Form) (l : Literal) : Prop where
  head : ∃ head, IsHead form head ∧ l.before = head ++ [l.quote]
  quote : isQuote l.quote
  closes : ∀ c ∈ l.content, c ≠ l.quote ∧ c ≠ '\n'

/-- A text has at most one such literal at its start. -/
theorem Literal.Found.eq {form form' : Form} {l l' : Literal} (h : l.Found form) (h' : l'.Found form')
    (heq : l.source = l'.source) : l = l' := by
  obtain ⟨⟨head, hhead, hbefore⟩, hquote, hcloses⟩ := h
  obtain ⟨⟨head', hhead', hbefore'⟩, hquote', hcloses'⟩ := h'
  obtain ⟨before, content, after, quote⟩ := l
  obtain ⟨before', content', after', quote'⟩ := l'
  obtain rfl : before = head ++ [quote] := hbefore
  obtain rfl : before' = head' ++ [quote'] := hbefore'
  -- a head has no quote in it, so the first quote is the opening one, and the next like it closes
  simp only [source, List.append_assoc, List.singleton_append] at heq
  obtain ⟨rfl, rfl, hrest⟩ := eq_of_first heq hhead.no_quote hhead'.no_quote hquote hquote'
  have hclass : ∀ {t : Text}, (∀ c ∈ t, c ≠ quote ∧ c ≠ '\n') →
      ∀ c ∈ t, (fun c => decide (c = quote)) c = false := by
    intro t ht c hc
    simp [(ht c hc).1]
  obtain ⟨rfl, -, rfl⟩ := eq_of_first hrest (hclass hcloses) (hclass hcloses') (by simp) (by simp)
  rfl

theorem closeQuote?_eq_some {quote : Char} {t : Text} {l : Literal}
    (h : closeQuote? quote t = some l) :
    l.before = [quote] ∧ l.quote = quote ∧ ∀ c ∈ l.content, c ≠ quote ∧ c ≠ '\n' := by
  unfold closeQuote? at h
  split at h
  · simp at h
  · split at h
    · obtain rfl := Option.some.inj h
      refine ⟨rfl, rfl, ?_⟩
      intro c hc
      simpa using List.mem_takeWhile_imp hc
    · simp at h

theorem isSome_closeQuote? {quote : Char} {content after : Text}
    (h : ∀ c ∈ content, c ≠ quote ∧ c ≠ '\n') :
    (closeQuote? quote (content ++ quote :: after)).isSome := by
  have hdrop : (content ++ quote :: after).dropWhile (fun c => decide (c ≠ quote ∧ c ≠ '\n')) =
      quote :: after := by
    rw [List.dropWhile_append_of_pos (by simpa using h)]
    simp
  unfold closeQuote?
  rw [hdrop]
  simp

theorem literal?_eq_some {t : Text} {l : Literal} (h : literal? t = some l) :
    (∃ gap, (∀ c ∈ gap, isBlank c) ∧ l.before = gap ++ [l.quote]) ∧ isQuote l.quote ∧
      ∀ c ∈ l.content, c ≠ l.quote ∧ c ≠ '\n' := by
  unfold literal? at h
  split at h
  · simp at h
  · rename_i c r hr
    split at h
    · rename_i hc
      obtain ⟨k, hk, rfl⟩ := Option.map_eq_some_iff.1 h
      obtain ⟨hbefore, rfl, hcloses⟩ := closeQuote?_eq_some hk
      refine ⟨⟨t.takeWhile isBlank, ?_, ?_⟩, ?_, hcloses⟩
      · intro c hc
        exact List.mem_takeWhile_imp hc
      · simp [Literal.behind, hbefore]
      · exact isQuote_iff.2 hc
    · simp at h

theorem isSome_literal? (after : Text) {gap content : Text} {quote : Char} (hgap : ∀ c ∈ gap, isBlank c)
    (hquote : isQuote quote) (hcloses : ∀ c ∈ content, c ≠ quote ∧ c ≠ '\n') :
    (literal? (gap ++ quote :: content ++ quote :: after)).isSome := by
  have hblank := isBlank_of_isQuote hquote
  have hdrop : (gap ++ quote :: content ++ quote :: after).dropWhile isBlank =
      quote :: (content ++ quote :: after) := by
    rw [List.append_assoc, List.dropWhile_append_of_pos hgap]
    simp [hblank]
  unfold literal?
  rw [hdrop]
  simp [isQuote_iff.1 hquote, isSome_closeQuote? hcloses]

/-! ## Clauses -/

/-- Whether a character behind the text would continue a word. `afterWord` says so of the place
before the text. -/
def wordBehind (afterWord : Bool) (t : Text) : Bool :=
  t.foldl (fun _ c => isWordChar c) afterWord

theorem wordBehind_true {t : Text} :
    wordBehind true t = false ↔ ∃ c, t.getLast? = some c ∧ isWordChar c = false := by
  rcases List.eq_nil_or_concat t with rfl | ⟨t, c, rfl⟩
  · simp [wordBehind]
  · simp [wordBehind, List.concat_eq_append]

theorem clause?_eq_some {afterWord : Bool} {t : Text} {l : Literal}
    (h : clause? afterWord t = some l) :
    (∃ between gap, l.before = between ++ fromWord ++ gap ++ [l.quote] ∧
      (∀ c ∈ between, endsClause c = false) ∧ (∀ c ∈ gap, isBlank c) ∧
      wordBehind afterWord between = false) ∧
    isQuote l.quote ∧ ∀ c ∈ l.content, c ≠ l.quote ∧ c ≠ '\n' := by
  induction t generalizing afterWord l with
  | nil => simp [clause?] at h
  | cons c t ih =>
    simp only [clause?] at h
    split at h
    · -- the word is here
      rename_i k hk
      obtain rfl := Option.some.inj h
      split at hk
      · simp at hk
      · rename_i hword
        obtain ⟨rest, -, hlit⟩ := Option.bind_eq_some_iff.1 hk
        obtain ⟨⟨gap, hgap, hbefore⟩, hquote, hcloses⟩ := literal?_eq_some hlit
        refine ⟨⟨[], gap, ?_, by simp, hgap, by simpa [wordBehind] using hword⟩, hquote, hcloses⟩
        simp [Literal.behind, hbefore]
    · split at h
      · simp at h
      · rename_i hends
        obtain ⟨k, hk, rfl⟩ := Option.map_eq_some_iff.1 h
        obtain ⟨⟨between, gap, hbefore, hfree, hgap, hword⟩, hquote, hcloses⟩ := ih hk
        refine ⟨⟨c :: between, gap, ?_, ?_, hgap, hword⟩, hquote, hcloses⟩
        · simp [Literal.behind, hbefore]
        · intro d hd
          rcases List.mem_cons.1 hd with rfl | hd
          · simpa using hends
          · exact hfree d hd

theorem isSome_clause? (after : Text) {between gap content : Text} {quote : Char}
    (hfree : ∀ c ∈ between, endsClause c = false) (hgap : ∀ c ∈ gap, isBlank c)
    (hquote : isQuote quote) (hcloses : ∀ c ∈ content, c ≠ quote ∧ c ≠ '\n') :
    ∀ afterWord, wordBehind afterWord between = false →
      (clause? afterWord
        (between ++ (fromWord ++ (gap ++ quote :: content ++ quote :: after)))).isSome := by
  induction between with
  | nil =>
    intro afterWord hword
    obtain ⟨l, hl⟩ := Option.isSome_iff_exists.1 (isSome_literal? after hgap hquote hcloses)
    have hword : afterWord = false := hword
    subst hword
    have hhere : (after? fromWord (fromWord ++ (gap ++ quote :: content ++ quote :: after))).bind
        literal? = some l := by
      rw [after?_append]
      exact hl
    change (clause? false ('f' :: _)).isSome
    unfold clause?
    change ((after? fromWord ('f' :: _)).bind literal? = _) at hhere
    simp only [Bool.false_eq_true, if_false, hhere, Option.isSome_some]
  | cons c between ih =>
    intro afterWord hword
    have hrest := ih (fun d hd => hfree d (by simp [hd])) (isWordChar c) hword
    simp only [List.cons_append, clause?]
    split
    · rfl
    · rw [hfree c (by simp)]
      simpa using hrest

/-! ## Statements -/

theorem found_of_statementOf? {form : Form} {word t : Text} {l : Literal}
    (hword : word = importWord ∨ (form = .clause ∧ word = exportWord))
    (h : statementOf? form word t = some l) : l.Found form := by
  unfold statementOf? at h
  split at h
  · simp at h
  · split at h
    · obtain ⟨k, hk, rfl⟩ := Option.map_eq_some_iff.1 h
      obtain ⟨⟨gap, hgap, hbefore⟩, hquote, hcloses⟩ := literal?_eq_some hk
      obtain rfl : word = importWord := by simpa using hword
      refine ⟨⟨importWord ++ gap, .sideEffect hgap, ?_⟩, hquote, hcloses⟩
      simp [Literal.behind, hbefore]
    · rename_i rest hrest
      split at h
      · simp at h
      · rename_i hstarts
        obtain ⟨k, hk, rfl⟩ := Option.map_eq_some_iff.1 h
        obtain ⟨⟨between, gap, hbefore, hfree, hgap, hbehind⟩, hquote, hcloses⟩ := clause?_eq_some hk
        have hlast := wordBehind_true.1 hbehind
        have hfirst : ∃ c, between.head? = some c ∧ isWordChar c = false := by
          cases between with
          | nil => simp [wordBehind] at hbehind
          | cons c between =>
            refine ⟨c, rfl, ?_⟩
            have hsource := source_clause? hk
            simp only [Literal.source, hbefore, List.cons_append] at hsource
            rw [← hsource] at hstarts
            simpa [headIs] using hstarts
        have hkey : word = importWord ∨ word = exportWord := by simpa using hword
        refine ⟨⟨word ++ between ++ fromWord ++ gap, .clause hkey hfree hfirst hlast hgap, ?_⟩,
          hquote, hcloses⟩
        simp [Literal.behind, hbefore]

theorem found_of_statement? {form : Form} {t : Text} {l : Literal}
    (h : statement? form t = some l) : l.Found form := by
  unfold statement? at h
  split at h
  · exact found_of_statementOf? (Or.inl rfl) h
  · rcases Option.or_eq_some_iff.1 h with h | ⟨-, h⟩
    · exact found_of_statementOf? (Or.inl rfl) h
    · exact found_of_statementOf? (Or.inr ⟨rfl, rfl⟩) h

theorem isSome_statement? {form : Form} {l : Literal} (h : l.Found form) :
    (statement? form l.source).isSome := by
  obtain ⟨⟨head, hhead, hbefore⟩, hquote, hcloses⟩ := h
  obtain ⟨before, content, after, quote⟩ := l
  obtain rfl : before = head ++ [quote] := hbefore
  cases hhead with
  | sideEffect hgap =>
    rename_i gap
    have hsome := isSome_literal? after hgap hquote hcloses
    have hsource : Literal.source ⟨importWord ++ gap ++ [quote], content, after, quote⟩ =
        importWord ++ (gap ++ quote :: content ++ quote :: after) := by simp [Literal.source]
    rw [hsource]
    simp only [statement?, statementOf?, after?_append, Option.isSome_map]
    exact hsome
  | clause hword hfree hfirst hlast hgap =>
    rename_i word between gap
    have hsome := isSome_clause? after hfree hgap hquote hcloses true
      (wordBehind_true.2 hlast)
    obtain ⟨c, hc, hnot⟩ := hfirst
    obtain ⟨between, rfl⟩ : ∃ r, between = c :: r := by
      cases between with
      | nil => simp at hc
      | cons d r =>
        obtain rfl : d = c := by simpa using hc
        exact ⟨r, rfl⟩
    have hsource : Literal.source
        ⟨word ++ (c :: between) ++ fromWord ++ gap ++ [quote], content, after, quote⟩ =
        word ++ ((c :: between) ++ (fromWord ++ (gap ++ quote :: content ++ quote :: after))) := by
      simp [Literal.source]
    have hof : (statementOf? .clause word (word ++ ((c :: between) ++
        (fromWord ++ (gap ++ quote :: content ++ quote :: after))))).isSome := by
      simp only [statementOf?, after?_append]
      rw [if_neg (by simp [headIs, hnot])]
      simpa using hsome
    simp only [statement?, hsource, Option.isSome_or, Bool.or_eq_true]
    rcases hword with rfl | rfl
    · exact Or.inl hof
    · exact Or.inr hof

/-- The scan finds the literal that stands behind a head and closes on its line, and no other. -/
theorem statement?_eq_some_iff {form : Form} {t : Text} {l : Literal} :
    statement? form t = some l ↔ l.Found form ∧ l.source = t := by
  constructor
  · intro h
    exact ⟨found_of_statement? h, source_statement? h⟩
  · rintro ⟨hfound, rfl⟩
    obtain ⟨k, hk⟩ := Option.isSome_iff_exists.1 (isSome_statement? hfound)
    rw [hk, (found_of_statement? hk).eq hfound (source_statement? hk)]

/-- Whether a text starts with a statement of a form. -/
def Starts (form : Form) (t : Text) : Prop :=
  ∃ l : Literal, l.Found form ∧ l.source = t

theorem statement?_eq_none_iff {form : Form} {t : Text} :
    statement? form t = none ↔ ¬ Starts form t := by
  rw [Option.eq_none_iff_forall_ne_some]
  constructor
  · rintro h ⟨l, hl⟩
    exact h l (statement?_eq_some_iff.2 hl)
  · intro h l hl
    exact h ⟨l, statement?_eq_some_iff.1 hl⟩

end ModuleServer.Import
