import ModuleServer.Proofs.Import.Shape
import ModuleServer.Proofs.Text.Run
import ModuleServer.Specifier.Basic

/-!
# Modules of statements

The grammar of import and export statements, as data: what stands before a literal is a `Head`, made
of tokens and the gaps between them, and a `Module` is made of statements with neutral text between
them.

* `Head.isHead`: a head whose gaps neither end a clause nor continue a word is one that the scan
  knows.
* `Statement.Proper`: gaps are blanks, and the literal holds no quote, line break or semicolon.
* `Module.MadeOf`: statements of a kind start where statements may, and neutral text has none of the
  two words in it.
-/

namespace ModuleServer.Import

open Text

/-! ## Heads -/

/-- A token of a clause. -/
inductive Token where
  | word (t : Text)
  | mark (c : Char)

/-- The text of a token. -/
def Token.text : Token → Text
  | .word t => t
  | .mark c => [c]

/-- Whether a token is a word. -/
def Token.isWord : Token → Bool
  | .word _ => true
  | .mark _ => false

/-- The marks of a clause. -/
def isMark (c : Char) : Bool :=
  c = '*' || c = ',' || c = '{' || c = '}'

/-- Words are not empty, and nothing in them ends a clause, is blank or a mark. -/
def Token.Proper : Token → Prop
  | .word t => t ≠ [] ∧ ∀ c ∈ t, endsClause c = false ∧ isBlank c = false ∧ isMark c = false
  | .mark c => isMark c

instance (token : Token) : Decidable token.Proper :=
  match token with
  | .word t =>
    -- named, since there is also an instance that goes through all characters
    have := t.decidableBAll fun c => endsClause c = false ∧ isBlank c = false ∧ isMark c = false
    inferInstanceAs (Decidable (_ ∧ _))
  | .mark _ => inferInstanceAs (Decidable (_ = true))

/-- What stands before the literal of a statement: a keyword, the tokens of a clause each behind a
gap, and `from` between two gaps; or the word for imports and a gap. -/
inductive Head where
  | clause (keyword : Text) (tokens : List (Text × Token)) (beforeFrom behindFrom : Text)
  | sideEffect (gap : Text)

namespace Head

/-- The form of the statements with such a head. -/
def form : Head → Form
  | .clause .. => .clause
  | .sideEffect _ => .sideEffect

/-- The text of tokens, each behind its gap. -/
def tokensText (tokens : List (Text × Token)) : Text :=
  tokens.flatMap fun (gap, token) => gap ++ token.text

/-- The text of a head. -/
def text : Head → Text
  | .clause keyword tokens beforeFrom behindFrom =>
    keyword ++ (tokensText tokens ++ beforeFrom) ++ fromWord ++ behindFrom
  | .sideEffect gap => importWord ++ gap

/-- The gaps before `from`. -/
def gaps : Head → List Text
  | .clause _ tokens beforeFrom _ => tokens.map Prod.fst ++ [beforeFrom]
  | .sideEffect _ => []

/-- The gap before the literal. -/
def lastGap : Head → Text
  | .clause _ _ _ behindFrom => behindFrom
  | .sideEffect gap => gap

/-- Where two words meet, their gap is not empty. `behindWord` says that a word stands before. -/
def Apart (behindWord : Bool) : List (Text × Token) → Prop
  | [] => True
  | (gap, token) :: tokens => (behindWord → token.isWord → gap ≠ []) ∧ Apart token.isWord tokens

/-- There is a clause, its tokens are proper, and no two words touch. -/
def Proper : Head → Prop
  | .clause keyword tokens beforeFrom _ =>
    (keyword = importWord ∨ keyword = exportWord) ∧ tokens ≠ [] ∧ (∀ p ∈ tokens, p.2.Proper) ∧
      Apart true (tokens ++ [(beforeFrom, .word fromWord)])
  | .sideEffect _ => True

instance decidableApart (behindWord : Bool) :
    ∀ tokens : List (Text × Token), Decidable (Apart behindWord tokens)
  | [] => .isTrue trivial
  | (_, token) :: tokens =>
    have := decidableApart token.isWord tokens
    inferInstanceAs (Decidable (_ ∧ _))

instance (h : Head) : Decidable h.Proper :=
  match h with
  | .clause .. => inferInstanceAs (Decidable (_ ∧ _ ∧ _ ∧ _))
  | .sideEffect _ => .isTrue trivial

end Head

/-! ## Gaps -/

/-- None of the ends of a gap continues a word. -/
structure Loose (gap : Text) : Prop where
  first : ∀ c, gap.head? = some c → isWordChar c = false
  last : ∀ c, gap.getLast? = some c → isWordChar c = false

/-- None of the ends of a gap continues a word, and nothing in it ends a clause. -/
structure Quiet (gap : Text) : Prop extends Loose gap where
  free : ∀ c ∈ gap, endsClause c = false

/-- Text whose ends continue no word may stand before a gap. -/
theorem Loose.behind {t gap : Text} (h : Loose gap)
    (hfirst : ∃ c, t.head? = some c ∧ isWordChar c = false)
    (hlast : ∃ c, t.getLast? = some c ∧ isWordChar c = false) : Loose (t ++ gap) := by
  obtain ⟨a, ha, hnota⟩ := hfirst
  obtain ⟨b, hb, hnotb⟩ := hlast
  refine ⟨?_, ?_⟩
  · intro c hc
    rw [List.head?_append, ha] at hc
    rw [← Option.some.inj hc]
    exact hnota
  · intro c hc
    rw [List.getLast?_append, hb] at hc
    cases hgap : gap.getLast? with
    | none =>
      obtain rfl : b = c := by simpa [hgap] using hc
      exact hnotb
    | some d =>
      obtain rfl : d = c := by simpa [hgap] using hc
      exact h.last d hgap

theorem classes_of_isBlank {c : Char} (h : isBlank c) :
    endsClause c = false ∧ isWordChar c = false :=
  forall_blank (P := fun c => endsClause c = false ∧ isWordChar c = false) (by decide) h

theorem Quiet.of_blank {gap : Text} (h : ∀ c ∈ gap, isBlank c) : Quiet gap where
  first c hc := (classes_of_isBlank (h c (List.mem_of_mem_head? hc))).2
  last c hc := (classes_of_isBlank (h c (List.mem_of_mem_getLast? hc))).2
  free c hc := (classes_of_isBlank (h c hc)).1

theorem classes_of_isMark {c : Char} (h : isMark c) :
    endsClause c = false ∧ isWordChar c = false := by
  simp only [isMark, Bool.or_eq_true, decide_eq_true_eq] at h
  rcases h with ((rfl | rfl) | rfl) | rfl <;> decide

theorem Token.Proper.free {token : Token} (h : token.Proper) :
    ∀ c ∈ token.text, endsClause c = false := by
  intro c hc
  cases token with
  | word t => exact (h.2 c hc).1
  | mark d =>
    rw [List.mem_singleton.1 hc]
    exact (classes_of_isMark h).1

/-! ## Proper heads are heads -/

namespace Head

theorem tokensText_cons (gap : Text) (token : Token) (tokens : List (Text × Token)) :
    tokensText ((gap, token) :: tokens) = gap ++ token.text ++ tokensText tokens := rfl

theorem free_tokensText {tokens : List (Text × Token)} (htokens : ∀ p ∈ tokens, p.2.Proper)
    (hgaps : ∀ gap ∈ tokens.map Prod.fst, Quiet gap) :
    ∀ c ∈ tokensText tokens, endsClause c = false := by
  intro c hc
  obtain ⟨⟨gap, token⟩, hmem, hc⟩ := List.mem_flatMap.1 hc
  rcases List.mem_append.1 hc with hc | hc
  · exact (hgaps gap (List.mem_map_of_mem hmem)).free c hc
  · exact (htokens _ hmem).free c hc

/-- Behind a word, a clause does not start with a word character. -/
theorem first_tokensText {tokens : List (Text × Token)} (hne : tokens ≠ [])
    (htokens : ∀ p ∈ tokens, p.2.Proper) (hgaps : ∀ gap ∈ tokens.map Prod.fst, Loose gap)
    {rest : List (Text × Token)} (hapart : Apart true (tokens ++ rest)) (t : Text) :
    ∃ c, (tokensText tokens ++ t).head? = some c ∧ isWordChar c = false := by
  cases tokens with
  | nil => exact absurd rfl hne
  | cons p tokens =>
    obtain ⟨gap, token⟩ := p
    have hloose : Loose gap := hgaps gap (by simp)
    have htoken : token.Proper := htokens (gap, token) (by simp)
    rw [tokensText_cons]
    cases gap with
    | cons c gap => exact ⟨c, rfl, hloose.first c rfl⟩
    | nil =>
      cases token with
      | word w => exact absurd rfl (hapart.1 rfl rfl)
      | mark c => exact ⟨c, rfl, (classes_of_isMark htoken).2⟩

/-- Before a word, tokens and a gap do not end with a word character. -/
theorem last_tokensText {tokens : List (Text × Token)} (hne : tokens ≠ [])
    (htokens : ∀ p ∈ tokens, p.2.Proper) {gap word : Text} (hgap : Loose gap) :
    ∀ behindWord, Apart behindWord (tokens ++ [(gap, .word word)]) →
      ∃ c, (tokensText tokens ++ gap).getLast? = some c ∧ isWordChar c = false := by
  induction tokens with
  | nil => exact absurd rfl hne
  | cons p tokens ih =>
    obtain ⟨gap', token⟩ := p
    intro behindWord hapart
    rw [tokensText_cons]
    rcases List.eq_nil_or_concat gap with rfl | ⟨front, c, rfl⟩
    · cases tokens with
      | nil =>
        -- the last token meets the word, so it is a mark
        cases token with
        | word w => exact absurd rfl (hapart.2.1 rfl rfl)
        | mark c =>
          refine ⟨c, by simp [tokensText, Token.text], ?_⟩
          exact (classes_of_isMark (htokens (gap', .mark c) (by simp))).2
      | cons q tokens =>
        obtain ⟨c, hc, hnot⟩ := ih (by simp) (fun p hp => htokens p (by simp [hp])) _ hapart.2
        refine ⟨c, ?_, hnot⟩
        rw [List.append_assoc, List.getLast?_append, hc]
        rfl
    · refine ⟨c, by simp, hgap.last c (by simp)⟩

/-- A proper head with quiet gaps, and blanks before the literal, is one that the scan knows. -/
theorem isHead {h : Head} (hproper : h.Proper) (hgaps : ∀ gap ∈ h.gaps, Quiet gap)
    (hlast : ∀ c ∈ h.lastGap, isBlank c) : IsHead h.form h.text := by
  cases h with
  | sideEffect gap => exact .sideEffect hlast
  | clause keyword tokens beforeFrom behindFrom =>
    obtain ⟨hkeyword, hne, htokens, hapart⟩ := hproper
    have hbefore : ∀ gap ∈ tokens.map Prod.fst, Quiet gap :=
      fun gap hgap => hgaps gap (List.mem_append_left _ hgap)
    have hfrom : Quiet beforeFrom := hgaps beforeFrom (by simp [gaps])
    refine .clause hkeyword ?_ ?_ ?_ hlast
    · intro c hc
      rcases List.mem_append.1 hc with hc | hc
      · exact free_tokensText htokens hbefore c hc
      · exact hfrom.free c hc
    · exact first_tokensText hne htokens (fun gap hgap => (hbefore gap hgap).toLoose) hapart _
    · exact last_tokensText hne htokens hfrom.toLoose true hapart

end Head

/-! ## Statements -/

/-- A statement: what stands before its literal, the quote, and the content of the literal. -/
structure Statement where
  head : Head
  quote : Char
  content : Text

/-- Characters that a literal may hold without being mistaken for anything else. -/
def isInner (c : Char) : Bool :=
  !(isQuote c || c = '\n' || c = ';')

namespace Statement

/-- The text of a statement. -/
def text (st : Statement) : Text :=
  st.head.text ++ st.quote :: st.content ++ [st.quote]

/-- A statement with blanks between its tokens. -/
structure Proper (st : Statement) : Prop where
  head : st.head.Proper
  gaps : ∀ gap ∈ st.head.gaps, ∀ c ∈ gap, isBlank c
  lastGap : ∀ c ∈ st.head.lastGap, isBlank c
  quote : isQuote st.quote
  content : ∀ c ∈ st.content, isInner c

instance (st : Statement) : Decidable st.Proper :=
  decidable_of_iff (st.head.Proper ∧ (st.head.gaps.all fun gap => gap.all isBlank) ∧
      st.head.lastGap.all isBlank ∧ isQuote st.quote ∧ st.content.all isInner) <| by
    simp only [List.all_eq_true]
    exact ⟨fun ⟨head, gaps, lastGap, quote, content⟩ => ⟨head, gaps, lastGap, quote, content⟩,
      fun ⟨head, gaps, lastGap, quote, content⟩ => ⟨head, gaps, lastGap, quote, content⟩⟩

/-- A statement that the scan can read: its head is one that the scan knows, and nothing in its literal
can be mistaken. -/
structure Readable (st : Statement) : Prop where
  isHead : IsHead st.head.form st.head.text
  quote : isQuote st.quote
  content : ∀ c ∈ st.content, isInner c

/-- Whether a statement is of a form and names a package. -/
def asks (form : Form) (st : Statement) : Bool :=
  st.head.form = form && Specifier.isBare st.content

theorem Proper.readable {st : Statement} (h : st.Proper) : st.Readable where
  isHead := Head.isHead h.head (fun gap hgap => .of_blank (h.gaps gap hgap)) h.lastGap
  quote := h.quote
  content := h.content

end Statement

/-! ## Modules -/

/-- Text in which none of the two words occurs. -/
def Neutral (t : Text) : Prop :=
  ¬ importWord <:+: t ∧ ¬ exportWord <:+: t

instance (t : Text) : Decidable (Neutral t) :=
  inferInstanceAs (Decidable (_ ∧ _))

/-- Statements, each behind the text before it, and the text behind the last. -/
structure Module where
  items : List (Text × Statement)
  rest : Text

namespace Module

/-- The text of statements and the text before each. -/
def itemsText (items : List (Text × Statement)) : Text :=
  items.flatMap fun (t, st) => t ++ st.text

/-- The text of a module. -/
def text (m : Module) : Text :=
  itemsText m.items ++ m.rest

/-- Statements are of a kind and start a line or follow a semicolon, and what stands before each is
neutral. `first` says that nothing stands before them all. -/
def ItemsOf (P : Statement → Prop) (first : Bool) : List (Text × Statement) → Prop
  | [] => True
  | (t, st) :: items => Neutral t ∧ Opens first t ∧ P st ∧ ItemsOf P false items

/-- A module of neutral text and statements of a kind. -/
structure MadeOf (P : Statement → Prop) (m : Module) : Prop where
  items : ItemsOf P true m.items
  rest : Neutral m.rest

instance decidableItemsOf (P : Statement → Prop) [DecidablePred P] (first : Bool) :
    ∀ items : List (Text × Statement), Decidable (ItemsOf P first items)
  | [] => .isTrue trivial
  | (_, _) :: items =>
    have := decidableItemsOf P false items
    inferInstanceAs (Decidable (_ ∧ _ ∧ _ ∧ _))

instance (P : Statement → Prop) [DecidablePred P] (m : Module) : Decidable (m.MadeOf P) :=
  decidable_of_iff (ItemsOf P true m.items ∧ Neutral m.rest)
    ⟨fun ⟨items, rest⟩ => ⟨items, rest⟩, fun ⟨items, rest⟩ => ⟨items, rest⟩⟩

theorem ItemsOf.mono {P Q : Statement → Prop} (hPQ : ∀ st, P st → Q st)
    {items : List (Text × Statement)} : ∀ {first}, ItemsOf P first items → ItemsOf Q first items := by
  induction items with
  | nil =>
    intro first _
    trivial
  | cons item items ih =>
    rintro first ⟨hneutral, hopens, hst, hitems⟩
    exact ⟨hneutral, hopens, hPQ _ hst, ih hitems⟩

theorem MadeOf.mono {P Q : Statement → Prop} (hPQ : ∀ st, P st → Q st) {m : Module}
    (h : m.MadeOf P) : m.MadeOf Q :=
  ⟨h.items.mono hPQ, h.rest⟩

/-- The bare specifiers of statements of a form, in order. -/
def formQuestions (form : Form) : List (Text × Statement) → List Text
  | [] => []
  | (_, st) :: items =>
    if st.asks form then st.content :: formQuestions form items else formQuestions form items

/-- The bare specifiers of statements of a form replaced by answers, in order. -/
def formAnswered (form : Form) : List (Text × Statement) → List Text → List (Text × Statement)
  | [], _ => []
  | (t, st) :: items, answers =>
    if st.asks form then
      (t, { st with content := answers.headD st.content }) :: formAnswered form items answers.tail
    else (t, st) :: formAnswered form items answers

/-- The bare specifiers of a module: those of statements with a clause in order, and then those of
the others in order. -/
def questions (m : Module) : List Text :=
  formQuestions .clause m.items ++ formQuestions .sideEffect m.items

/-- The module with its bare specifiers replaced by answers, which come in the order of the
questions. -/
def answered (m : Module) (answers : List Text) : Module :=
  let clauses := (formQuestions .clause m.items).length
  { m with
    items := formAnswered .sideEffect (formAnswered .clause m.items (answers.take clauses))
      (answers.drop clauses) }

end Module

end ModuleServer.Import
