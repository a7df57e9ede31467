import ModuleServer.Component.Block

/-!
# Reading a component file

`Component.parse` walks the file from one `<` to the next. Comments are passed over, a `<` that
opens no tag is text, and an opening tag starts a block whose text is taken as it stands: up to the
matching closing tag for a template, whose nested templates are counted, and up to the first
closing tag of its name for any other block.

* `length_lt_readTag`, `length_templateBody_le`, `length_rawBody_le`: no part that is read leaves
  more to read, and an opening tag leaves less.
-/

namespace ModuleServer.Component

open Text

/-! ## Fixed words -/

/-- The start of a comment. -/
def commentStart : Text := ['<', '!', '-', '-']

/-- The end of a comment. -/
def commentEnd : Text := ['-', '-', '>']

/-- The start of a template's opening tag. -/
def templateOpen : Text := "<template".toList

/-- The start of a template's closing tag. -/
def templateClose : Text := "</template".toList

/-! ## Opening tags -/

/-- Characters of a block's tag name. -/
def isTagChar (c : Char) : Bool :=
  c.isAlphanum || c = '-' || c = '_'

/-- Characters of an attribute's name. -/
def isAttributeChar (c : Char) : Bool :=
  !(isWhite c || c = '=' || c = '>' || c = '/')

/-- Characters of an attribute's value without quotes. -/
def isBareValueChar (c : Char) : Bool :=
  !(isWhite c || c = '>')

/-- The value that stands at the start of the text, quoted or bare, and the text behind it. -/
def readValue (t : Text) : Except Fault (Text × Text) :=
  match t with
  | [] => .ok ([], [])
  | c :: r =>
    if c = '"' ∨ c = '\'' then
      match cut? [c] r with
      | some (value, rest) => .ok (value, rest)
      | none => .error .unterminatedValue
    else .ok (t.takeWhile isBareValueChar, t.dropWhile isBareValueChar)

/-- The value of an attribute whose name has just been read: what follows an equals sign, or
nothing. -/
def readAssigned (t : Text) : Except Fault (Text × Text) :=
  match trimStart t with
  | '=' :: r => readValue (trimStart r)
  | rest => .ok ([], rest)

theorem length_trimStart_le (t : Text) : (trimStart t).length ≤ t.length :=
  (List.dropWhile_suffix _).length_le

theorem length_readValue_le {t v r : Text} (h : readValue t = .ok (v, r)) :
    r.length ≤ t.length := by
  unfold readValue at h
  split at h
  · simp_all
  · rename_i c s
    split at h
    · split at h
      · rename_i value rest hc
        have := length_of_cut? hc
        simp only [Except.ok.injEq, Prod.mk.injEq] at h
        obtain ⟨-, rfl⟩ := h
        simp only [List.length_cons, List.length_nil] at this ⊢
        omega
      · simp at h
    · simp only [Except.ok.injEq, Prod.mk.injEq] at h
      obtain ⟨-, rfl⟩ := h
      exact (List.dropWhile_suffix _).length_le

theorem length_readAssigned_le {t v r : Text} (h : readAssigned t = .ok (v, r)) :
    r.length ≤ t.length := by
  have ht := length_trimStart_le t
  unfold readAssigned at h
  split at h
  · rename_i s hs
    have h1 := length_readValue_le h
    have h2 := length_trimStart_le s
    simp only [hs, List.length_cons] at ht
    omega
  · simp only [Except.ok.injEq, Prod.mk.injEq] at h
    obtain ⟨-, rfl⟩ := h
    exact ht

/-- The rest of an opening tag behind its name: its attributes, whether it closes itself, and the
text behind the tag. A lone slash or equals sign is passed over. -/
def readAttributes (tag : Text) (found : Attributes) (t : Text) :
    Except Fault (Attributes × Bool × Text) :=
  match _hs : trimStart t with
  | [] => .error (.unterminatedTag tag)
  | '/' :: '>' :: rest => .ok (found, true, rest)
  | '>' :: rest => .ok (found, false, rest)
  | c :: rest =>
    if isAttributeChar c then
      match _hr : readAssigned (rest.dropWhile isAttributeChar) with
      | .error fault => .error fault
      | .ok (value, behind) =>
        readAttributes tag (Table.set (c :: rest.takeWhile isAttributeChar) value found) behind
    else readAttributes tag found rest
termination_by t.length
decreasing_by
  · have h1 := length_readAssigned_le _hr
    have h2 := length_trimStart_le t
    have h3 : (rest.dropWhile isAttributeChar).length ≤ rest.length :=
      (List.dropWhile_suffix _).length_le
    simp only [_hs, List.length_cons] at h2
    omega
  · have h2 := length_trimStart_le t
    simp only [_hs, List.length_cons] at h2
    omega

/-- An opening tag of a block. -/
structure OpenTag where
  /-- Name, in lower case. -/
  name : Text
  /-- Attributes. -/
  attributes : Attributes
  /-- Whether the tag closes itself. -/
  selfClosing : Bool
deriving DecidableEq, Repr

/-- The opening tag whose `<` has just been read, and the text behind it. -/
def readTag (t : Text) : Except Fault (OpenTag × Text) :=
  let name := lower (t.takeWhile isTagChar)
  (readAttributes name [] (t.dropWhile isTagChar)).map fun (attributes, selfClosing, rest) =>
    (⟨name, attributes, selfClosing⟩, rest)

theorem length_readAttributes_le {tag t rest : Text} {found attributes : Attributes}
    {selfClosing : Bool} (h : readAttributes tag found t = .ok (attributes, selfClosing, rest)) :
    rest.length < t.length := by
  fun_induction readAttributes tag found t with
  | case1 => simp at h
  | case2 found t r hs =>
    have h2 := length_trimStart_le t
    simp only [Except.ok.injEq, Prod.mk.injEq] at h
    simp only [hs, List.length_cons] at h2
    obtain ⟨-, -, rfl⟩ := h
    omega
  | case3 found t r hs =>
    have h2 := length_trimStart_le t
    simp only [Except.ok.injEq, Prod.mk.injEq] at h
    simp only [hs, List.length_cons] at h2
    obtain ⟨-, -, rfl⟩ := h
    omega
  | case4 => simp at h
  | case5 found t c r hn1 hn2 hs hc value behind hr ih =>
    have h1 := length_readAssigned_le hr
    have h2 := length_trimStart_le t
    have h3 : (r.dropWhile isAttributeChar).length ≤ r.length :=
      (List.dropWhile_suffix _).length_le
    have h4 := ih h
    simp only [hs, List.length_cons] at h2
    omega
  | case6 found t c r hn1 hn2 hs hc ih =>
    have h2 := length_trimStart_le t
    have h4 := ih h
    simp only [hs, List.length_cons] at h2
    omega

theorem length_lt_readTag {t rest : Text} {tag : OpenTag} (h : readTag t = .ok (tag, rest)) :
    rest.length < t.length := by
  unfold readTag at h
  simp only [Except.map] at h
  split at h
  · simp at h
  · rename_i p hp
    obtain ⟨a, s, r⟩ := p
    simp only [Except.ok.injEq, Prod.mk.injEq] at h
    obtain ⟨-, rfl⟩ := h
    have h1 := length_readAttributes_le hp
    have h2 : (t.dropWhile isTagChar).length ≤ t.length := (List.dropWhile_suffix _).length_le
    omega

/-! ## Block texts -/

/-- Whether the text behind `</name` shows that the name ends there. -/
def endsName (t : Text) : Bool :=
  headIs (fun c => c = '>' || isWhite c) t

/-- What follows a closing tag of which `</name` has been read: the text behind its `>`, or
nothing when the file ends first. -/
def afterClosing (t : Text) : Text :=
  match cut? [ '>' ] t with
  | some (_, rest) => rest
  | none => []

/-- Whether an opening tag of which `<template` has been read closes itself. -/
def closesItself (t : Text) : Bool :=
  endsWith [ '/' ] (trimEnd (t.takeWhile (· ≠ '>')))

theorem length_afterClosing_le (t : Text) : (afterClosing t).length ≤ t.length := by
  unfold afterClosing
  split
  · rename_i a b h
    have := length_of_cut? h
    omega
  · simp

/-- What a place in the text of a template means for where the template ends. -/
inductive Landmark where
  /-- A comment, with the text behind it. -/
  | comment (whole rest : Text)
  /-- A comment without its end. -/
  | openComment
  /-- A closing template tag, with the text behind it. -/
  | closing (rest : Text)
  /-- The opening tag of a nested template. -/
  | opening
  /-- None of these. -/
  | other
deriving DecidableEq, Repr

/-- The landmark at the start of the text. -/
def landmark (t : Text) : Landmark :=
  if startsWith commentStart t then
    match cut? commentEnd t with
    | some (comment, rest) => .comment (comment ++ commentEnd) rest
    | none => .openComment
  else
    -- at most one of the two words can stand here
    match after? templateClose t, after? templateOpen t with
    | some behind, _ => if endsName behind then .closing (afterClosing behind) else .other
    | none, some behind =>
      if (endsName behind || headIs (· = '/') behind) && !closesItself behind then .opening
      else .other
    | none, none => .other

theorem length_landmark_comment {t whole rest : Text} (h : landmark t = .comment whole rest) :
    rest.length < t.length := by
  unfold landmark at h
  split at h
  · split at h
    · rename_i comment behind hc
      have h1 := length_of_cut? hc
      simp only [Landmark.comment.injEq] at h
      obtain ⟨-, rfl⟩ := h
      simp only [commentEnd, List.length_cons, List.length_nil] at h1
      omega
    · simp at h
  · split at h
    · split at h <;> simp at h
    · split at h <;> simp at h
    · simp at h

theorem length_landmark_closing {t rest : Text} (h : landmark t = .closing rest) :
    rest.length ≤ t.length := by
  unfold landmark at h
  split at h
  · split at h <;> simp at h
  · split at h
    · rename_i behind hb
      split at h
      · have h1 := length_afterClosing_le behind
        have h2 := congrArg List.length (after?_eq_some.1 hb)
        simp only [Landmark.closing.injEq] at h
        simp only [List.length_append] at h2
        rw [← h]
        omega
      · simp at h
    · split at h <;> simp at h
    · simp at h

/-- The text of a template up to the closing tag that matches its opening tag, and the text behind
that closing tag. `depth` counts the templates that are open inside. -/
def templateBody (depth : Nat) (t : Text) : Option (Text × Text) :=
  match t with
  | [] => none
  | c :: r =>
    match _hm : landmark (c :: r), depth with
    | .comment whole rest, _ =>
      (templateBody depth rest).map fun (body, behind) => (whole ++ body, behind)
    | .openComment, _ => none
    | .closing rest, 0 => some ([], rest)
    | .closing _, inner + 1 =>
      (templateBody inner r).map fun (body, behind) => (c :: body, behind)
    | .opening, _ =>
      (templateBody (depth + 1) r).map fun (body, behind) => (c :: body, behind)
    | .other, _ => (templateBody depth r).map fun (body, behind) => (c :: body, behind)
termination_by t.length
decreasing_by
  · exact length_landmark_comment _hm
  all_goals simp

/-- The text of a block up to the first `</name` after which the name ends, and the text behind
that closing tag. `closing` is `</name`. -/
def rawBody (closing : Text) : Text → Option (Text × Text)
  | [] => none
  | c :: r =>
    match after? closing (c :: r) with
    | some behind =>
      if endsName behind then some ([], afterClosing behind)
      else (rawBody closing r).map fun (body, rest) => (c :: body, rest)
    | none => (rawBody closing r).map fun (body, rest) => (c :: body, rest)

theorem length_templateBody_le {depth : Nat} {t body rest : Text}
    (h : templateBody depth t = some (body, rest)) : rest.length ≤ t.length := by
  fun_induction templateBody depth t generalizing body rest with
  | case1 => simp at h
  | case2 depth c r whole behind hm ih =>
    obtain ⟨⟨b, q⟩, hq, he⟩ := Option.map_eq_some_iff.1 h
    obtain ⟨-, rfl⟩ := Prod.mk.inj he
    exact Nat.le_trans (ih hq) (Nat.le_of_lt (length_landmark_comment hm))
  | case3 => simp at h
  | case4 c r behind hm =>
    simp only [Option.some.injEq, Prod.mk.injEq] at h
    obtain ⟨-, rfl⟩ := h
    exact length_landmark_closing hm
  | case5 c r behind inner hm ih | case6 depth c r hm ih | case7 depth c r hm ih =>
    obtain ⟨⟨b, q⟩, hq, he⟩ := Option.map_eq_some_iff.1 h
    obtain ⟨-, rfl⟩ := Prod.mk.inj he
    exact Nat.le_succ_of_le (ih hq)

theorem length_rawBody_le {closing t body rest : Text}
    (h : rawBody closing t = some (body, rest)) : rest.length ≤ t.length := by
  induction t generalizing body rest with
  | nil => simp [rawBody] at h
  | cons c r ih =>
    simp only [rawBody] at h
    split at h
    · rename_i behind hb
      split at h
      · simp only [Option.some.injEq, Prod.mk.injEq] at h
        obtain ⟨-, rfl⟩ := h
        have h1 := length_afterClosing_le behind
        have h2 := congrArg List.length (after?_eq_some.1 hb)
        simp only [List.length_append] at h2
        omega
      · obtain ⟨⟨b, q⟩, hq, he⟩ := Option.map_eq_some_iff.1 h
        obtain ⟨-, rfl⟩ := Prod.mk.inj he
        exact Nat.le_succ_of_le (ih hq)
    · obtain ⟨⟨b, q⟩, hq, he⟩ := Option.map_eq_some_iff.1 h
      obtain ⟨-, rfl⟩ := Prod.mk.inj he
      exact Nat.le_succ_of_le (ih hq)

/-! ## The whole file -/

/-- The text of a block whose opening tag has been read, and the text behind its closing tag. -/
def blockBody (tag : OpenTag) (t : Text) : Option (Text × Text) :=
  if tag.selfClosing then some ([], t)
  else if tag.name = "template".toList then templateBody 0 t
  else rawBody ("</".toList ++ tag.name) t

theorem length_blockBody_le {tag : OpenTag} {t body rest : Text}
    (h : blockBody tag t = some (body, rest)) : rest.length ≤ t.length := by
  unfold blockBody at h
  split at h
  · simp_all
  · split at h
    · exact length_templateBody_le h
    · exact length_rawBody_le h

/-- The file read so far, with the blocks of the text that is left. `size` is the size of the whole
file, so that `size - byteSize t` is the place of `t` in it. -/
def scan (size : Nat) (found : Component) (t : Text) : Except Error Component :=
  match t with
  | [] => .ok found
  | c :: r =>
    let start := size - byteSize (c :: r)
    if c ≠ '<' then scan size found r
    else if startsWith commentStart (c :: r) then
      match _hc : cut? commentEnd (c :: r) with
      | some (_, rest) => scan size found rest
      | none => .error ⟨.unterminatedComment, ⟨start, size⟩⟩
    else if headIs Char.isAlpha r then
      -- a block: its opening tag, its text, and its closing tag
      match _ht : readTag r with
      | .error fault => .error ⟨fault, ⟨start, size⟩⟩
      | .ok (tag, inside) =>
        match _hb : blockBody tag inside with
        | none => .error ⟨.missingEndTag tag.name, ⟨start, size⟩⟩
        | some (body, rest) =>
          let bodyStart := size - byteSize inside
          let block : Block := ⟨body, tag.attributes, ⟨bodyStart, bodyStart + byteSize body⟩⟩
          match found.add tag.name block ⟨start, size - byteSize rest⟩ with
          | .error e => .error e
          | .ok found => scan size found rest
    -- any other `<` is text
    else scan size found r
termination_by t.length
decreasing_by
  · simp
  · have := length_of_cut? _hc
    simp only [List.length_cons, commentEnd, List.length_nil] at this ⊢
    omega
  · have h1 := length_lt_readTag _ht
    have h2 := length_blockBody_le _hb
    simp only [List.length_cons]
    omega
  · simp

/-- The blocks of a component file, or the first thing that is wrong with it. -/
def parse (source : Text) : Except Error Component :=
  scan (byteSize source) empty source

end ModuleServer.Component
