import ModuleServer.Template.Directive
import ModuleServer.Template.Fault
import ModuleServer.Template.Reference
import ModuleServer.Template.Vocabulary

/-!
# Tokens of markup

Markup is read into opening tags, end tags, interpolations and runs of text. What a token is
depends on the text from its start on and on nothing before it; comments leave no token. The first
thing that is wrong ends the tokens with a fault.

* `tokens` reads all of a text, `lexeme` the token at its start.
* `length_lexeme_lt`: every lexeme leaves less to read.
-/

namespace ModuleServer.Template

open Text

/-! ## Attributes and directives -/

/-- Characters of an item's name behind its first. -/
def isItemChar (c : Char) : Bool :=
  !(isWhite c || c = '=' || c = '>' || c = '/')

/-- Characters of a tag's name. -/
def isNameChar (c : Char) : Bool :=
  !(isWhite c || c = '>' || c = '/')

/-- Characters of a value without quotes. -/
def isBareChar (c : Char) : Bool :=
  !(isWhite c || c = '>')

/-- The value at the start of the text, quoted or bare, as written, and the text behind it; nothing
if its closing quote is missing. -/
def readValue? (t : Text) : Option (Text × Text) :=
  match t with
  | [] => some ([], [])
  | c :: r =>
    if c = '"' ∨ c = '\'' then cut? [c] r
    else some (t.takeWhile isBareChar, t.dropWhile isBareChar)

/-- The value of an item whose name has just been read, if there is one, with the text behind. -/
def readAssignment? (t : Text) : Option (Option Text × Text) :=
  match trimStart t with
  | '=' :: r => (readValue? (trimStart r)).map fun (value, rest) =>
      (some (Reference.decode value), rest)
  | rest => some (none, rest)

theorem length_trimStart_le (t : Text) : (trimStart t).length ≤ t.length :=
  (List.dropWhile_suffix _).length_le

theorem length_readValue?_le {t v r : Text} (h : readValue? t = some (v, r)) :
    r.length ≤ t.length := by
  unfold readValue? at h
  split at h
  · simp_all
  · split at h
    · have := length_of_cut? h
      simp only [List.length_cons, List.length_nil] at this ⊢
      omega
    · simp only [Option.some.injEq, Prod.mk.injEq] at h
      obtain ⟨-, rfl⟩ := h
      exact (List.dropWhile_suffix _).length_le

theorem length_readAssignment?_le {t r : Text} {v : Option Text}
    (h : readAssignment? t = some (v, r)) : r.length ≤ t.length := by
  have ht := length_trimStart_le t
  unfold readAssignment? at h
  split at h
  · rename_i s hs
    obtain ⟨⟨value, rest⟩, hv, he⟩ := Option.map_eq_some_iff.1 h
    obtain ⟨-, rfl⟩ := Prod.mk.inj he
    have h1 := length_readValue?_le hv
    have h2 := length_trimStart_le s
    simp only [hs, List.length_cons] at ht
    omega
  · simp only [Option.some.injEq, Prod.mk.injEq] at h
    obtain ⟨-, rfl⟩ := h
    exact ht

/-! ## Opening tags -/

/-- The rest of an opening tag behind its name: its items, whether it closes itself, and the text
behind it. `size` is the size of all the markup and `start` the place of the tag. -/
def readItems (size start : Nat) (name : Text) (found : List Item) (t : Text) :
    Except Error (List Item × Bool × Text) :=
  match _hs : trimStart t with
  | [] => .error ⟨.unterminatedTag name, ⟨start, size⟩⟩
  | '/' :: '>' :: rest => .ok (found.reverse, true, rest)
  | '>' :: rest => .ok (found.reverse, false, rest)
  -- a lone slash is passed over
  | '/' :: rest => readItems size start name found rest
  -- an item has at least one character, whatever it is
  | c :: rest =>
    let itemStart := size - byteSize (c :: rest)
    match _hr : readAssignment? (rest.dropWhile isItemChar) with
    | none => .error ⟨.unterminatedValue, ⟨itemStart, size⟩⟩
    | some (value, behind) =>
      let item := Item.ofText (c :: rest.takeWhile isItemChar) value
        ⟨itemStart, size - byteSize behind⟩
      readItems size start name (item :: found) behind
termination_by t.length
decreasing_by
  · have h2 := length_trimStart_le t
    simp only [_hs, List.length_cons] at h2
    omega
  · have h1 := length_readAssignment?_le _hr
    have h2 := length_trimStart_le t
    have h3 : (rest.dropWhile isItemChar).length ≤ rest.length :=
      (List.dropWhile_suffix _).length_le
    simp only [_hs, List.length_cons] at h2
    omega

theorem length_readItems_lt {size start : Nat} {name t rest : Text} {found items : List Item}
    {selfClosing : Bool}
    (h : readItems size start name found t = .ok (items, selfClosing, rest)) :
    rest.length < t.length := by
  fun_induction readItems size start name found t with
  | case1 => simp at h
  | case2 found t r hs | case3 found t r hs =>
    have h2 := length_trimStart_le t
    simp only [Except.ok.injEq, Prod.mk.injEq] at h
    simp only [hs, List.length_cons] at h2
    obtain ⟨-, -, rfl⟩ := h
    omega
  | case4 found t r _ hs ih =>
    have h2 := length_trimStart_le t
    have h4 := ih h
    simp only [hs, List.length_cons] at h2
    omega
  | case5 => simp at h
  | case6 found t c r _ _ _ hs itemStart value behind hr item ih =>
    have h1 := length_readAssignment?_le hr
    have h2 := length_trimStart_le t
    have h3 : (r.dropWhile isItemChar).length ≤ r.length :=
      (List.dropWhile_suffix _).length_le
    have h4 := ih h
    simp only [hs, List.length_cons] at h2
    omega

/-! ## Runs of text -/

/-- Whether something other than text starts here. -/
def stopsText : Text → Bool
  | '{' :: '{' :: _ => true
  | '<' :: c :: _ => c.isAlpha || c = '/' || c = '!'
  | _ => false

/-- The run of text up to where something else starts, and what starts there. -/
def readRun : Text → Text × Text
  | [] => ([], [])
  | c :: t =>
    if stopsText (c :: t) then ([], c :: t)
    else (c :: (readRun t).1, (readRun t).2)

theorem length_readRun_le (t : Text) : (readRun t).2.length ≤ t.length := by
  induction t with
  | nil => simp [readRun]
  | cons c t ih =>
    simp only [readRun]
    split
    · simp
    · exact Nat.le_succ_of_le ih

/-! ## Tokens -/

/-- A piece of markup. -/
inductive Token where
  /-- A run of text, with its references replaced. -/
  | text (content : Text) (span : Span)
  /-- An expression shown as text. -/
  | interpolation (expression : Text) (span : Span)
  /-- An opening tag. -/
  | opening (tag : Tag) (selfClosing : Bool) (span : Span)
  /-- An end tag. -/
  | ending (name : Text) (span : Span)
  /-- What is wrong with the markup from here on. -/
  | fault (error : Error)
deriving DecidableEq, Repr

/-- What stands at the start of a text. -/
inductive Lexeme where
  /-- A token, and the text behind it. -/
  | token (t : Token) (rest : Text)
  /-- A comment, and the text behind it. -/
  | comment (rest : Text)
  /-- Something wrong. -/
  | fault (error : Error)
deriving DecidableEq, Repr

/-- The end tag at the start of `</…`, of which the text is given behind these two. -/
def readEnding (size start : Nat) (t : Text) : Lexeme :=
  match cut? ['>'] t with
  | none => .fault ⟨.unterminatedEndTag, ⟨start, size⟩⟩
  | some (_, rest) =>
    .token (.ending (t.takeWhile isBareChar) ⟨start, size - byteSize rest⟩) rest

/-- The comment at the start of the text. -/
def readComment (size start : Nat) (t : Text) : Lexeme :=
  match cut? ['-', '-', '>'] t with
  | none => .fault ⟨.unterminatedComment, ⟨start, size⟩⟩
  | some (_, rest) => .comment rest

/-- The opening tag whose `<` has just been read. -/
def readOpening (size start : Nat) (t : Text) : Lexeme :=
  let name := t.takeWhile isNameChar
  match readItems size start name [] (t.dropWhile isNameChar) with
  | .error e => .fault e
  | .ok (items, selfClosing, rest) =>
    .token (.opening ⟨name, .ofName name, items⟩ selfClosing ⟨start, size - byteSize rest⟩) rest

/-- The interpolation whose two braces have just been read. -/
def readInterpolation (size start : Nat) (t : Text) : Lexeme :=
  match cut? ['}', '}'] t with
  | none => .fault ⟨.unterminatedInterpolation, ⟨start, size⟩⟩
  | some (body, rest) =>
    .token (.interpolation (Reference.decode (trim body)) ⟨start, size - byteSize rest⟩) rest

/-- The run of text that has `c` as its first character. -/
def readText (size start : Nat) (c : Char) (t : Text) : Lexeme :=
  let (run, rest) := readRun t
  .token (.text (Reference.decode (c :: run)) ⟨start, size - byteSize rest⟩) rest

/-- What stands at the start of `c :: t`. `size` is the size of all the markup. -/
def lexeme (size : Nat) (c : Char) (t : Text) : Lexeme :=
  let start := size - byteSize (c :: t)
  match c, t with
  | '<', '/' :: r => readEnding size start r
  | '<', '!' :: '-' :: '-' :: _ => readComment size start t
  | '{', '{' :: r => readInterpolation size start r
  | c, t =>
    if c = '<' ∧ headIs Char.isAlpha t then readOpening size start t
    else readText size start c t

/-- The text that a lexeme leaves to read. -/
def Lexeme.rest : Lexeme → Text
  | .token _ rest => rest
  | .comment rest => rest
  | .fault _ => []

theorem length_readEnding_le (size start : Nat) (t : Text) :
    (readEnding size start t).rest.length ≤ t.length := by
  unfold readEnding
  split
  · simp [Lexeme.rest]
  · rename_i h
    have := length_of_cut? h
    simp only [Lexeme.rest]
    omega

theorem length_readComment_le (size start : Nat) (t : Text) :
    (readComment size start t).rest.length ≤ t.length := by
  unfold readComment
  split
  · simp [Lexeme.rest]
  · rename_i h
    have := length_of_cut? h
    simp only [Lexeme.rest]
    omega

theorem length_readOpening_le (size start : Nat) (t : Text) :
    (readOpening size start t).rest.length ≤ t.length := by
  unfold readOpening
  dsimp only
  split
  · simp [Lexeme.rest]
  · rename_i h
    have h1 := length_readItems_lt h
    have h2 : (t.dropWhile isNameChar).length ≤ t.length := (List.dropWhile_suffix _).length_le
    simp only [Lexeme.rest]
    omega

theorem length_readInterpolation_le (size start : Nat) (t : Text) :
    (readInterpolation size start t).rest.length ≤ t.length := by
  unfold readInterpolation
  split
  · simp [Lexeme.rest]
  · rename_i h
    have := length_of_cut? h
    simp only [Lexeme.rest]
    omega

theorem length_lexeme_lt (size : Nat) (c : Char) (t : Text) :
    (lexeme size c t).rest.length < (c :: t).length := by
  unfold lexeme
  simp only [List.length_cons]
  split
  · have := length_readEnding_le size (size - byteSize ('<' :: '/' :: ‹Text›)) ‹Text›
    simp only [List.length_cons]
    omega
  · exact Nat.lt_succ_of_le (length_readComment_le ..)
  · have := length_readInterpolation_le size (size - byteSize ('{' :: '{' :: ‹Text›)) ‹Text›
    simp only [List.length_cons]
    omega
  · split
    · exact Nat.lt_succ_of_le (length_readOpening_le ..)
    · exact Nat.lt_succ_of_le (length_readRun_le _)

/-- The tokens of markup of which `t` is left to read. -/
def tokensFrom (size : Nat) (t : Text) : List Token :=
  match t with
  | [] => []
  | c :: r =>
    match _h : lexeme size c r with
    | .token token rest => token :: tokensFrom size rest
    | .comment rest => tokensFrom size rest
    | .fault error => [.fault error]
termination_by t.length
decreasing_by
  all_goals
    have := length_lexeme_lt size c r
    simpa only [_h, Lexeme.rest] using this

/-- The tokens of markup. -/
def tokens (source : Text) : List Token :=
  tokensFrom (byteSize source) source

end ModuleServer.Template
