import ModuleServer.Specifier.Basic
import ModuleServer.Text.Property

/-!
# Import statements

Static import and export statements are found by their form alone, at the start of a line or behind
a semicolon: one of the two words, then a clause without quotes, brackets or equals signs up to the
first `from` that a quoted literal of one line follows; or the word for imports and such a literal.

A code is cut into segments, the specifiers and the text between them (`segments`). The cut loses
nothing: `flatMap_text_segments`.
-/

namespace ModuleServer.Import

open Text

/-- The form of a statement. -/
inductive Form where
  /-- A clause and `from` stand before the literal. -/
  | clause
  /-- The literal follows the word for imports. -/
  | sideEffect
deriving DecidableEq, Repr

/-- A part of a code. -/
inductive Segment where
  /-- Text that is no specifier. -/
  | verbatim (text : Text)
  /-- The specifier of a statement. -/
  | specifier (text : Text)
deriving DecidableEq, Repr

/-- The text of a segment. -/
def Segment.text : Segment → Text
  | .verbatim t => t
  | .specifier t => t

/-- A statement's literal in its text: what stands before the content, the content, and the text
from the closing quote on. -/
structure Literal where
  /-- The text up to the opening quote, with it. -/
  before : Text
  /-- The text between the quotes. -/
  content : Text
  /-- The text behind the closing quote. -/
  after : Text
  /-- The quote. -/
  quote : Char
deriving DecidableEq, Repr

/-- The text that a literal was found in. -/
def Literal.source (l : Literal) : Text :=
  l.before ++ l.content ++ l.quote :: l.after

/-- The literal with more text before it. -/
def Literal.behind (t : Text) (l : Literal) : Literal :=
  { l with before := t ++ l.before }

/-- The content of a literal whose opening quote has just been read, if it closes on its line. -/
def closeQuote? (quote : Char) (t : Text) : Option Literal :=
  match t.dropWhile fun c => c ≠ quote ∧ c ≠ '\n' with
  | [] => none
  | c :: after =>
    if c = quote then some ⟨[quote], t.takeWhile fun c => c ≠ quote ∧ c ≠ '\n', after, quote⟩
    else none

/-- The literal that the text starts with, blanks apart. -/
def literal? (t : Text) : Option Literal :=
  match t.dropWhile isBlank with
  | [] => none
  | c :: r =>
    if c = '"' ∨ c = '\'' then (closeQuote? c r).map (Literal.behind (t.takeWhile isBlank))
    else none

/-- Characters that end a clause. -/
def endsClause (c : Char) : Bool :=
  c = '\'' || c = '"' || c = ';' || c = '(' || c = ')' || c = '='

/-- The word before the literal of a clause. -/
def fromWord : Text := ['f', 'r', 'o', 'm']

/-- The literal of the clause that the text goes on with: the one behind the first `from` that
has one. `afterWord` says whether the text continues a word. -/
def clause? (afterWord : Bool) : Text → Option Literal
  | [] => none
  | c :: t =>
    let here := if afterWord then none else (after? fromWord (c :: t)).bind literal?
    match here with
    | some l => some (l.behind fromWord)
    -- a `from` without a literal is part of the clause
    | none => if endsClause c then none else (clause? (isWordChar c) t).map (Literal.behind [c])

/-- The word for imports. -/
def importWord : Text := "import".toList

/-- The word for exports. -/
def exportWord : Text := "export".toList

/-- The literal of a statement of a form with a certain word, if the text starts with one. -/
def statementOf? (form : Form) (word : Text) (t : Text) : Option Literal :=
  match after? word t with
  | none => none
  | some rest =>
    match form with
    | .sideEffect => (literal? rest).map (Literal.behind word)
    | .clause =>
      if headIs isWordChar rest then none else (clause? true rest).map (Literal.behind word)

/-- The literal of a statement of a form, if the text starts with one. -/
def statement? (form : Form) (t : Text) : Option Literal :=
  match form with
  | .sideEffect => statementOf? .sideEffect importWord t
  | .clause => (statementOf? .clause importWord t).or (statementOf? .clause exportWord t)

/-! ## Nothing is lost -/

theorem source_behind (t : Text) (l : Literal) : (l.behind t).source = t ++ l.source := by
  simp [Literal.behind, Literal.source]

theorem source_closeQuote? {quote : Char} {t : Text} {l : Literal}
    (h : closeQuote? quote t = some l) : l.source = quote :: t := by
  have ht := List.takeWhile_append_dropWhile (p := fun c => decide (c ≠ quote ∧ c ≠ '\n')) (l := t)
  unfold closeQuote? at h
  split at h
  · simp at h
  · rename_i c after hc
    split at h
    · rename_i hq
      subst hq
      simp only [Option.some.injEq] at h
      subst h
      rw [hc] at ht
      simp only [Literal.source, List.cons_append, List.nil_append, ht]
    · simp at h

theorem source_literal? {t : Text} {l : Literal} (h : literal? t = some l) : l.source = t := by
  have ht := List.takeWhile_append_dropWhile (p := isBlank) (l := t)
  unfold literal? at h
  split at h
  · simp at h
  · rename_i c r hr
    split at h
    · obtain ⟨k, hk, rfl⟩ := Option.map_eq_some_iff.1 h
      rw [source_behind, source_closeQuote? hk, ← hr, ht]
    · simp at h

theorem source_clause? {afterWord : Bool} {t : Text} {l : Literal}
    (h : clause? afterWord t = some l) : l.source = t := by
  induction t generalizing afterWord l with
  | nil => simp [clause?] at h
  | cons c t ih =>
    simp only [clause?] at h
    split at h
    · rename_i k hk
      simp only [Option.some.injEq] at h
      subst h
      split at hk
      · simp at hk
      · obtain ⟨rest, hrest, hlit⟩ := Option.bind_eq_some_iff.1 hk
        rw [source_behind, source_literal? hlit]
        exact (after?_eq_some.1 hrest).symm
    · split at h
      · simp at h
      · obtain ⟨k, hk, rfl⟩ := Option.map_eq_some_iff.1 h
        rw [source_behind, ih hk]
        rfl

theorem source_statementOf? {form : Form} {word t : Text} {l : Literal}
    (h : statementOf? form word t = some l) : l.source = t := by
  unfold statementOf? at h
  split at h
  · simp at h
  · rename_i rest hrest
    rw [after?_eq_some.1 hrest]
    split at h
    · obtain ⟨k, hk, rfl⟩ := Option.map_eq_some_iff.1 h
      rw [source_behind, source_literal? hk]
    · split at h
      · simp at h
      · obtain ⟨k, hk, rfl⟩ := Option.map_eq_some_iff.1 h
        rw [source_behind, source_clause? hk]

theorem source_statement? {form : Form} {t : Text} {l : Literal}
    (h : statement? form t = some l) : l.source = t := by
  unfold statement? at h
  split at h
  · exact source_statementOf? h
  · rcases Option.or_eq_some_iff.1 h with h | ⟨-, h⟩
    · exact source_statementOf? h
    · exact source_statementOf? h

theorem length_after_statement? {form : Form} {t : Text} {l : Literal}
    (h : statement? form t = some l) : l.after.length < t.length := by
  rw [← source_statement? h]
  simp only [Literal.source, List.length_append, List.length_cons]
  omega

/-! ## Segments -/

/-- Whether a statement may start behind a character: at the start of a line, behind a semicolon,
and behind blanks that follow either. -/
def startsBehind (before : Bool) (c : Char) : Bool :=
  c = '\n' || c = ';' || (before && isBlank c)

/-- The segments of a code for statements of a form. `atStart` says whether a statement may start
here. -/
def segmentsFrom (form : Form) (atStart : Bool) (t : Text) : List Segment :=
  match t with
  | [] => []
  | c :: r =>
    match _h : if atStart then statement? form (c :: r) else none with
    | some l =>
      .verbatim l.before :: .specifier l.content :: .verbatim [l.quote] ::
        segmentsFrom form false l.after
    | none => .verbatim [c] :: segmentsFrom form (startsBehind atStart c) r
termination_by t.length
decreasing_by
  · split at _h
    · exact length_after_statement? _h
    · simp at _h
  · simp

/-- The segments of a code for statements of a form. -/
def segments (form : Form) (code : Text) : List Segment :=
  segmentsFrom form true code

theorem flatMap_text_segmentsFrom (form : Form) (atStart : Bool) (t : Text) :
    (segmentsFrom form atStart t).flatMap Segment.text = t := by
  fun_induction segmentsFrom form atStart t with
  | case1 => rfl
  | case2 atStart c r l h ih =>
    split at h
    · have := source_statement? h
      simp only [Literal.source] at this
      simp [Segment.text, ih, ← this]
    · simp at h
  | case3 atStart c r h ih => simp [Segment.text, ih]

theorem flatMap_text_segments (form : Form) (code : Text) :
    (segments form code).flatMap Segment.text = code :=
  flatMap_text_segmentsFrom ..

end ModuleServer.Import
