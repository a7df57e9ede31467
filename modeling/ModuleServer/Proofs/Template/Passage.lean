import ModuleServer.Proofs.Template.Lexeme
import ModuleServer.Proofs.Template.RoundTrip

/-!
# Passages of markup

Markup that has a tree is made of passages: runs of text, comments, interpolations, and elements
with what stands in them. They say what the markup looks like as it is written (`Passage.source`),
where each of them ends (`Passage.IsProper`) and what it becomes (`Passage.nodes`).

* `exists_passages`: every tree is that of passages which make the markup.
* `passages_unique`: there is one way to make markup of passages.
* `lexemeAt_lexeme`, `LexemeAt.lexeme_eq`: what can stand at the start of a text, and what is read
  there, are the same.
-/

namespace ModuleServer.Template

open Text

/-- A passage of markup, as written. -/
inductive Passage where
  /-- A run of text. -/
  | run (written : Text)
  /-- A comment, without its first character and its end mark. -/
  | comment (written : Text)
  /-- An interpolation, without its braces. -/
  | interpolation (written : Text)
  /-- An element: the tag that is read from its opening tag, the opening tag, what stands in it, and
  the end tag, which is empty if there is none. -/
  | element (tag : Tag) (opening : Text) (content : List Passage) (ending : Text)

namespace Passage

/-! ## As written -/

mutual

/-- The markup of a passage. -/
def source : Passage → Text
  | run written => written
  | comment written => '<' :: (written ++ ['-', '-', '>'])
  | interpolation written => '{' :: '{' :: (written ++ ['}', '}'])
  | element _ opening content ending => opening ++ (sources content ++ ending)

/-- The markup of passages. -/
def sources : List Passage → Text
  | [] => []
  | p :: ps => source p ++ sources ps

end

/-- Whether something other than a run of text starts here. -/
def startsOther : Text → Bool
  | '<' :: '/' :: _ => true
  | '<' :: '!' :: '-' :: '-' :: _ => true
  | '<' :: c :: _ => c.isAlpha
  | '{' :: '{' :: _ => true
  | _ => false

/-- Whether a text is the run at its place, if `rest` follows: it starts as a run, nothing stops it
behind its first character, and something stops it at its end. -/
structure IsRunBefore (rest written : Text) : Prop where
  /-- There is something. -/
  ne : written ≠ []
  /-- It starts as a run. -/
  starts : startsOther (written ++ rest) = false
  /-- It goes on to its end. -/
  goes : ∀ before behind, written = before ++ behind → before ≠ [] → behind ≠ [] →
    stopsText (behind ++ rest) = false
  /-- It does not go on from there. -/
  stops : Stops rest

/-- Characters that start nothing but text are a run. -/
theorem IsRunBefore.of_isRun {rest written : Text} (hne : written ≠ []) (h : IsRun written)
    (hstops : Stops rest) : IsRunBefore rest written where
  ne := hne
  starts := by
    cases written with
    | nil => exact absurd rfl hne
    | cons c written =>
      obtain ⟨hopen, hbrace⟩ := h c List.mem_cons_self
      rw [List.cons_append]
      unfold startsOther
      split <;> simp_all
  goes := by
    rintro before (_ | ⟨c, behind⟩) rfl - hbehind
    · exact absurd rfl hbehind
    · obtain ⟨hopen, hbrace⟩ := h c (List.mem_append_right _ List.mem_cons_self)
      exact stopsText_cons hopen hbrace
  stops := hstops

/-- Whether a text is the opening tag that stands at `start`, if `rest` follows, and reads as a tag
that closes itself or does not. -/
def IsOpening (start : Nat) (rest opening : Text) (tag : Tag) (selfClosing : Bool) : Prop :=
  ∃ written, opening = '<' :: written ∧ headIs Char.isAlpha (written ++ rest) ∧
    readOpening (start + byteSize (opening ++ rest)) start (written ++ rest) =
      .token (.opening tag selfClosing ⟨start, start + byteSize opening⟩) rest

/-- Whether a text is an end tag, if `rest` follows, and names an element as its opening tag
does. -/
def IsEnding (rest ending : Text) (tag : Tag) : Prop :=
  ∃ written, ending = '<' :: '/' :: (written ++ ['>']) ∧
    cut? ['>'] (written ++ '>' :: rest) = some (written, rest) ∧
    lower tag.name = lower (written.takeWhile isBareChar)

mutual

/-- Whether a passage is the one that stands at `start`, if `rest` follows. -/
def IsProper (start : Nat) (rest : Text) : Passage → Prop
  | run written => IsRunBefore rest written
  | comment written => ['!', '-', '-'] <+: written ++ ['-', '-', '>'] ∧
    cut? ['-', '-', '>'] (written ++ ('-' :: '-' :: '>' :: rest)) = some (written, rest)
  | interpolation written =>
    cut? ['}', '}'] (written ++ ('}' :: '}' :: rest)) = some (written, rest)
  | element tag opening content ending =>
    ∃ selfClosing, IsOpening start (sources content ++ (ending ++ rest)) opening tag selfClosing ∧
      if selfClosing || isVoidTag tag.name then content = [] ∧ ending = []
      else areProper (start + byteSize opening) (ending ++ rest) content ∧ IsEnding rest ending tag

/-- Whether passages are those that stand at `start`, if `rest` follows. -/
def areProper (start : Nat) (rest : Text) : List Passage → Prop
  | [] => True
  | p :: ps =>
    IsProper start (sources ps ++ rest) p ∧ areProper (start + byteSize (source p)) rest ps

end

/-! ## As read -/

mutual

/-- The nodes that a passage at `start` becomes. -/
def nodes (start : Nat) : Passage → List Node
  | run written => [.text (Reference.decode written) ⟨start, start + byteSize written⟩]
  | comment _ => []
  | interpolation written =>
    [.interpolation (Reference.decode (trim written))
      ⟨start, start + byteSize (source (interpolation written))⟩]
  | element tag opening content ending =>
    [.element tag
      (Node.condense (tag.name = "pre".toList) (nodesAll (start + byteSize opening) content))
      ⟨start, start + byteSize (source (element tag opening content ending))⟩]

/-- The nodes that passages at `start` become, before their white space is condensed. -/
def nodesAll (start : Nat) : List Passage → List Node
  | [] => []
  | p :: ps => nodes start p ++ nodesAll (start + byteSize (source p)) ps

end

end Passage

/-! ## Lexemes -/

open Passage in
/-- What a lexeme at `start` can be. -/
inductive LexemeAt (start : Nat) : Text → Lexeme → Prop where
  | run {written rest : Text} (h : IsRunBefore rest written) :
      LexemeAt start (written ++ rest)
        (.token (.text (Reference.decode written) ⟨start, start + byteSize written⟩) rest)
  | comment {written rest : Text} (h : IsProper start rest (.comment written)) :
      LexemeAt start (source (.comment written) ++ rest) (.comment rest)
  | interpolation {written rest : Text} (h : IsProper start rest (.interpolation written)) :
      LexemeAt start (source (.interpolation written) ++ rest)
        (.token (.interpolation (Reference.decode (trim written))
          ⟨start, start + byteSize (source (.interpolation written))⟩) rest)
  | opening {opening rest : Text} {tag : Tag} {selfClosing : Bool}
      (h : IsOpening start rest opening tag selfClosing) :
      LexemeAt start (opening ++ rest)
        (.token (.opening tag selfClosing ⟨start, start + byteSize opening⟩) rest)
  | ending {written rest : Text}
      (h : cut? ['>'] (written ++ '>' :: rest) = some (written, rest)) :
      LexemeAt start ('<' :: '/' :: (written ++ '>' :: rest))
        (.token (.ending (written.takeWhile isBareChar)
          ⟨start, start + byteSize ('<' :: '/' :: (written ++ ['>']))⟩) rest)
  | fault (t : Text) (error : Error) : LexemeAt start t (.fault error)

section Lexemes

variable {size start : Nat} {c : Char} {t : Text}

theorem stops_readRun (t : Text) : Stops (readRun t).2 := by
  induction t with
  | nil => exact .inl rfl
  | cons c t ih =>
    rw [readRun]
    split
    · rename_i hstops
      exact .inr hstops
    · exact ih

/-- Where a lexeme ends, counted from its start. -/
theorem stop_eq {written rest : Text} (hsize : start + byteSize (written ++ rest) = size) :
    size - byteSize rest = start + byteSize written := by
  rw [byteSize_append] at hsize
  omega

theorem lexemeAt_readEnding (hsize : start + byteSize ('<' :: '/' :: t) = size) :
    LexemeAt start ('<' :: '/' :: t) (readEnding size start t) := by
  rw [readEnding]
  split
  · exact .fault _ _
  · rename_i written rest hcut
    have ht : t = written ++ '>' :: rest := by simpa using eq_of_cut? hcut
    subst ht
    have hname : (written ++ '>' :: rest).takeWhile isBareChar = written.takeWhile isBareChar :=
      takeWhile_stop written rest (by decide)
    have htext : '<' :: '/' :: (written ++ '>' :: rest) =
        '<' :: '/' :: (written ++ ['>']) ++ rest := by simp
    rw [hname, stop_eq (htext ▸ hsize)]
    exact .ending hcut

theorem lexemeAt_readComment (hmark : ['!', '-', '-'] <+: t) :
    LexemeAt start ('<' :: t) (readComment size start t) := by
  rw [readComment]
  split
  · exact .fault _ _
  · rename_i written rest hcut
    have ht : t = written ++ ['-', '-', '>'] ++ rest := eq_of_cut? hcut
    have hwritten : ['!', '-', '-'] <+: written ++ ['-', '-', '>'] :=
      List.prefix_of_prefix_length_le (ht ▸ hmark) (List.prefix_append _ _) (by simp)
    have htext : '<' :: t = Passage.source (.comment written) ++ rest := by
      simp [Passage.source, ht]
    rw [htext]
    refine .comment ⟨hwritten, ?_⟩
    rw [← hcut, ht]
    simp

theorem lexemeAt_readInterpolation (hsize : start + byteSize ('{' :: '{' :: t) = size) :
    LexemeAt start ('{' :: '{' :: t) (readInterpolation size start t) := by
  rw [readInterpolation]
  split
  · exact .fault _ _
  · rename_i written rest hcut
    have ht : t = written ++ ['}', '}'] ++ rest := eq_of_cut? hcut
    have htext : '{' :: '{' :: t = Passage.source (.interpolation written) ++ rest := by
      simp [Passage.source, ht]
    rw [htext] at hsize ⊢
    rw [stop_eq hsize]
    refine .interpolation ?_
    rw [Passage.IsProper, ← hcut, ht]
    simp

theorem lexemeAt_readOpening (hsize : start + byteSize ('<' :: t) = size)
    (halpha : headIs Char.isAlpha t) : LexemeAt start ('<' :: t) (readOpening size start t) := by
  cases hitems : readItems size start (t.takeWhile isNameChar) [] (t.dropWhile isNameChar) with
  | error e =>
    rw [readOpening, hitems]
    exact .fault _ e
  | ok read =>
    obtain ⟨items, selfClosing, rest⟩ := read
    obtain ⟨written, ht⟩ : rest <:+ t := (readItems_suffix hitems).trans (List.dropWhile_suffix _)
    have htext : '<' :: t = '<' :: written ++ rest := congrArg ('<' :: ·) ht.symm
    have hread : readOpening size start t =
        .token (.opening ⟨t.takeWhile isNameChar, .ofName (t.takeWhile isNameChar), items⟩
          selfClosing ⟨start, start + byteSize ('<' :: written)⟩) rest := by
      rw [readOpening, ← stop_eq (htext ▸ hsize)]
      simp only [hitems]
    rw [hread, htext]
    refine .opening ⟨written, rfl, ht ▸ halpha, ?_⟩
    rw [← htext, hsize, ht]
    exact hread

theorem lexemeAt_readText (hsize : start + byteSize (c :: t) = size)
    (hstarts : Passage.startsOther (c :: t) = false) :
    LexemeAt start (c :: t) (readText size start c t) := by
  obtain ⟨hmake, hgoes⟩ := readRun_eq t
  have htext : c :: t = (c :: (readRun t).1) ++ (readRun t).2 := congrArg (c :: ·) hmake.symm
  have hread : readText size start c t = .token (.text (Reference.decode (c :: (readRun t).1))
      ⟨start, start + byteSize (c :: (readRun t).1)⟩) (readRun t).2 := by
    rw [readText, ← stop_eq (htext ▸ hsize)]
  rw [hread, htext]
  refine .run ⟨List.cons_ne_nil _ _, htext ▸ hstarts, ?_, stops_readRun t⟩
  intro before behind h hbefore hbehind
  cases before with
  | nil => exact absurd rfl hbefore
  | cons d before => exact hgoes before behind (List.cons.inj h).2 hbehind

/-- A lexeme is one of these, and ends where it has to. -/
theorem lexemeAt_lexeme (hsize : start + byteSize (c :: t) = size) :
    LexemeAt start (c :: t) (lexeme size c t) := by
  have hstart : size - byteSize (c :: t) = start := by omega
  unfold lexeme
  dsimp only
  rw [hstart]
  split
  · exact lexemeAt_readEnding hsize
  · exact lexemeAt_readComment ⟨_, rfl⟩
  · exact lexemeAt_readInterpolation hsize
  · rename_i hending hcomment hinterpolation
    split
    · rename_i hopening
      obtain ⟨rfl, halpha⟩ := hopening
      exact lexemeAt_readOpening hsize halpha
    · rename_i hopening
      refine lexemeAt_readText hsize ?_
      unfold Passage.startsOther
      split <;> simp_all [headIs]

/-- A run is read to its end. -/
theorem readRun_append {written rest : Text} (hstops : Stops rest)
    (hgoes : ∀ before behind, written = before ++ behind → behind ≠ [] →
      stopsText (behind ++ rest) = false) : readRun (written ++ rest) = (written, rest) := by
  induction written with
  | nil =>
    rcases hstops with rfl | hstops
    · rfl
    · cases rest with
      | nil => rfl
      | cons c rest => rw [List.nil_append, readRun, if_pos hstops]
  | cons c written ih =>
    have hrest := ih fun before behind h => hgoes (c :: before) behind (congrArg (c :: ·) h)
    have hc := hgoes [] (c :: written) rfl (List.cons_ne_nil _ _)
    rw [List.cons_append] at hc ⊢
    rw [readRun, if_neg (Bool.eq_false_iff.1 hc), hrest]

theorem lexeme_of_not_startsOther (size : Nat) (h : Passage.startsOther (c :: t) = false) :
    lexeme size c t = readText size (size - byteSize (c :: t)) c t := by
  unfold lexeme
  dsimp only
  split
  · cases h
  · cases h
  · cases h
  · rename_i hending hcomment hinterpolation
    refine if_neg fun ⟨hc, halpha⟩ => ?_
    subst hc
    cases t with
    | nil => cases halpha
    | cons d t =>
      unfold Passage.startsOther at h
      split at h <;> simp_all [headIs]

theorem lexeme_run {written rest : Text} (h : Passage.IsRunBefore rest (c :: written))
    (hsize : start + byteSize (c :: (written ++ rest)) = size) :
    lexeme size c (written ++ rest) =
      .token (.text (Reference.decode (c :: written)) ⟨start, start + byteSize (c :: written)⟩)
        rest := by
  have hrun : readRun (written ++ rest) = (written, rest) :=
    readRun_append h.stops fun before behind heq =>
      h.goes (c :: before) behind (congrArg (c :: ·) heq) (List.cons_ne_nil _ _)
  have hstart : size - byteSize (c :: (written ++ rest)) = start := by omega
  have hstarts : Passage.startsOther (c :: (written ++ rest)) = false := h.starts
  have hstop : start + byteSize (c :: written) = size - byteSize rest := (stop_eq hsize).symm
  rw [lexeme_of_not_startsOther size hstarts, readText, hrun, hstart, hstop]

theorem lexeme_comment (size : Nat) {written rest : Text}
    (h : Passage.IsProper start rest (.comment written)) :
    lexeme size '<' (written ++ ('-' :: '-' :: '>' :: rest)) = .comment rest := by
  obtain ⟨⟨x, hx⟩, hcut⟩ := h
  have htext : written ++ ('-' :: '-' :: '>' :: rest) = '!' :: '-' :: '-' :: (x ++ rest) := by
    have := congrArg (· ++ rest) hx
    simpa using this.symm
  rw [htext] at hcut ⊢
  change readComment size _ _ = _
  rw [readComment, hcut]

theorem lexeme_interpolation {written rest : Text}
    (h : Passage.IsProper start rest (.interpolation written))
    (hsize : start + byteSize ('{' :: '{' :: (written ++ ('}' :: '}' :: rest))) = size) :
    lexeme size '{' ('{' :: (written ++ ('}' :: '}' :: rest))) =
      .token (.interpolation (Reference.decode (trim written))
        ⟨start, start + byteSize (Passage.source (.interpolation written))⟩) rest := by
  have hstart : size - byteSize ('{' :: '{' :: (written ++ ('}' :: '}' :: rest))) = start := by
    omega
  have hcut : cut? ['}', '}'] (written ++ ('}' :: '}' :: rest)) = some (written, rest) := h
  have htext : '{' :: '{' :: (written ++ ('}' :: '}' :: rest)) =
      Passage.source (.interpolation written) ++ rest := by simp [Passage.source]
  change readInterpolation size (size - _) _ = _
  rw [hstart, readInterpolation, hcut, ← stop_eq (htext ▸ hsize)]

theorem lexeme_of_isOpening {written rest : Text} {tag : Tag} {selfClosing : Bool}
    (h : Passage.IsOpening start rest ('<' :: written) tag selfClosing)
    (hsize : start + byteSize ('<' :: (written ++ rest)) = size) :
    lexeme size '<' (written ++ rest) =
      .token (.opening tag selfClosing ⟨start, start + byteSize ('<' :: written)⟩) rest := by
  obtain ⟨_, hwritten, halpha, hread⟩ := h
  obtain ⟨-, rfl⟩ := List.cons.inj hwritten
  rw [List.cons_append, hsize] at hread
  have hstart : size - byteSize ('<' :: (written ++ rest)) = start := by omega
  rw [← hread]
  generalize written ++ rest = t at halpha hstart ⊢
  cases t with
  | nil => cases halpha
  | cons c t => rw [lexeme_opening size halpha, hstart]

theorem lexeme_ending {written rest : Text}
    (h : cut? ['>'] (written ++ '>' :: rest) = some (written, rest))
    (hsize : start + byteSize ('<' :: '/' :: (written ++ '>' :: rest)) = size) :
    lexeme size '<' ('/' :: (written ++ '>' :: rest)) =
      .token (.ending (written.takeWhile isBareChar)
        ⟨start, start + byteSize ('<' :: '/' :: (written ++ ['>']))⟩) rest := by
  have hstart : size - byteSize ('<' :: '/' :: (written ++ '>' :: rest)) = start := by omega
  have htext : '<' :: '/' :: (written ++ '>' :: rest) =
      '<' :: '/' :: (written ++ ['>']) ++ rest := by simp
  change readEnding size (size - _) _ = _
  rw [hstart, readEnding, h, ← stop_eq (htext ▸ hsize), takeWhile_stop written rest (by decide)]

/-- A lexeme that stands in a text is the one that is read. -/
theorem LexemeAt.lexeme_eq {l : Lexeme} (h : LexemeAt start (c :: t) l)
    (hfault : ∀ e, l ≠ .fault e) (hsize : start + byteSize (c :: t) = size) :
    lexeme size c t = l := by
  generalize hall : c :: t = all at h hsize
  cases h with
  | @run written rest h =>
    cases written with
    | nil => exact absurd rfl h.ne
    | cons d written =>
      obtain ⟨rfl, rfl⟩ := List.cons.inj hall
      exact lexeme_run h hsize
  | @comment written rest h =>
    have htext : Passage.source (.comment written) ++ rest =
        '<' :: (written ++ ('-' :: '-' :: '>' :: rest)) := by simp [Passage.source]
    rw [htext] at hall
    obtain ⟨rfl, rfl⟩ := List.cons.inj hall
    exact lexeme_comment size h
  | @interpolation written rest h =>
    have htext : Passage.source (.interpolation written) ++ rest =
        '{' :: '{' :: (written ++ ('}' :: '}' :: rest)) := by simp [Passage.source]
    rw [htext] at hall hsize
    obtain ⟨rfl, rfl⟩ := List.cons.inj hall
    exact lexeme_interpolation h hsize
  | @opening opening rest tag selfClosing h =>
    obtain ⟨written, rfl, -⟩ := id h
    obtain ⟨rfl, rfl⟩ := List.cons.inj hall
    exact lexeme_of_isOpening h hsize
  | @ending written rest h =>
    obtain ⟨rfl, rfl⟩ := List.cons.inj hall
    exact lexeme_ending h hsize
  | fault _ e => exact absurd rfl (hfault e)

theorem LexemeAt.ne_nil {l : Lexeme} (h : LexemeAt start t l) (hfault : ∀ e, l ≠ .fault e) :
    t ≠ [] := by
  cases h with
  | run h => simp [h.ne]
  | comment | interpolation => simp [Passage.source]
  | opening h =>
    obtain ⟨written, rfl, -⟩ := h
    exact List.cons_ne_nil _ _
  | ending => exact List.cons_ne_nil _ _
  | fault _ e => exact absurd rfl (hfault e)

end Lexemes

/-! ## Markup is made of passages in one way -/

namespace Passage

variable {start : Nat} {rest rest' : Text}

/-- The first lexeme of a passage, if `rest` follows. -/
def Shows (start : Nat) (rest : Text) : Passage → Lexeme → Prop
  | run written, l =>
    l = .token (.text (Reference.decode written) ⟨start, start + byteSize written⟩) rest
  | comment _, l => l = .comment rest
  | interpolation written, l =>
    l = .token (.interpolation (Reference.decode (trim written))
      ⟨start, start + byteSize (source (interpolation written))⟩) rest
  | element tag opening content ending, l =>
    ∃ selfClosing, l = .token (.opening tag selfClosing ⟨start, start + byteSize opening⟩)
      (sources content ++ (ending ++ rest))

theorem exists_shows {p : Passage} (h : p.IsProper start rest) :
    ∃ c t, p.source ++ rest = c :: t ∧
      ∀ size, start + byteSize (c :: t) = size → p.Shows start rest (lexeme size c t) := by
  -- a passage starts with a lexeme, so it is not empty
  have hstarts : ∀ l, LexemeAt start (p.source ++ rest) l → (∀ e, l ≠ .fault e) →
      p.Shows start rest l → ∃ c t, p.source ++ rest = c :: t ∧
        ∀ size, start + byteSize (c :: t) = size → p.Shows start rest (lexeme size c t) := by
    intro l hl hfault hshows
    generalize p.source ++ rest = all at hl
    cases all with
    | nil => exact absurd rfl (hl.ne_nil hfault)
    | cons c t =>
      refine ⟨c, t, rfl, fun size hsize => ?_⟩
      rw [hl.lexeme_eq hfault hsize]
      exact hshows
  cases p with
  | run written => exact hstarts _ (.run h) (fun _ => nofun) rfl
  | comment written => exact hstarts _ (.comment h) (fun _ => nofun) rfl
  | interpolation written => exact hstarts _ (.interpolation h) (fun _ => nofun) rfl
  | element tag opening content ending =>
    obtain ⟨selfClosing, hopening, -⟩ := h
    have htext : source (element tag opening content ending) ++ rest =
        opening ++ (sources content ++ (ending ++ rest)) := by
      simp only [source, List.append_assoc]
    exact hstarts _ (htext ▸ .opening hopening) (by simp) ⟨selfClosing, rfl⟩

/-- Passages that make the same text start with the same lexeme. -/
theorem exists_shows_both {p p' : Passage} (h : p.IsProper start rest)
    (h' : p'.IsProper start rest') (heq : p.source ++ rest = p'.source ++ rest') :
    ∃ l, p.Shows start rest l ∧ p'.Shows start rest' l := by
  obtain ⟨c, t, hct, hshows⟩ := exists_shows h
  obtain ⟨c', t', hct', hshows'⟩ := exists_shows h'
  obtain ⟨rfl, rfl⟩ := List.cons.inj (hct.symm.trans (heq.trans hct'))
  exact ⟨_, hshows _ rfl, hshows' _ rfl⟩

/-- Where passages end: at the end of the markup, or at an end tag. -/
def AtEnd (rest : Text) : Prop :=
  rest = [] ∨ ∃ t, rest = '<' :: '/' :: t

theorem not_proper_of_atEnd {p : Passage} (h : p.IsProper start rest)
    (hend : AtEnd (p.source ++ rest)) : False := by
  obtain ⟨c, t, hct, hshows⟩ := exists_shows h
  rw [hct] at hend
  rcases hend with hnil | ⟨u, hu⟩
  · cases hnil
  · obtain ⟨rfl, rfl⟩ := List.cons.inj hu
    have hending := hshows _ rfl
    change p.Shows start rest (readEnding _ _ u) at hending
    rw [readEnding] at hending
    split at hending
    · cases p <;> simp [Shows] at hending
    · cases p <;> simp [Shows] at hending

theorem IsEnding.unique {ending ending' : Text} {tag tag' : Tag} (h : IsEnding rest ending tag)
    (h' : IsEnding rest' ending' tag') (heq : ending ++ rest = ending' ++ rest') :
    ending = ending' ∧ rest = rest' := by
  obtain ⟨written, rfl, hcut, -⟩ := h
  obtain ⟨written', rfl, hcut', -⟩ := h'
  have htext : written ++ '>' :: rest = written' ++ '>' :: rest' := by simpa using heq
  rw [htext, hcut'] at hcut
  obtain ⟨rfl, rfl⟩ := Prod.mk.inj (Option.some.inj hcut)
  exact ⟨rfl, rfl⟩

theorem IsEnding.atEnd {ending : Text} {tag : Tag} (h : IsEnding rest ending tag) :
    AtEnd (ending ++ rest) := by
  obtain ⟨written, rfl, -⟩ := h
  exact .inr ⟨_, rfl⟩

theorem IsOpening.unique {opening opening' : Text} {tag tag' : Tag}
    {selfClosing selfClosing' : Bool} (h : IsOpening start rest opening tag selfClosing)
    (h' : IsOpening start rest' opening' tag' selfClosing')
    (heq : opening ++ rest = opening' ++ rest') :
    opening = opening' ∧ rest = rest' ∧ tag = tag' ∧ selfClosing = selfClosing' := by
  obtain ⟨written, rfl, -, hread⟩ := h
  obtain ⟨written', rfl, -, hread'⟩ := h'
  have htext : written ++ rest = written' ++ rest' := (List.cons.inj heq).2
  rw [heq, htext, hread'] at hread
  obtain ⟨htoken, rfl⟩ := Lexeme.token.inj hread
  obtain ⟨rfl, rfl, -⟩ := Token.opening.inj htoken
  exact ⟨List.append_cancel_right heq, rfl, rfl, rfl⟩

mutual

theorem IsProper.unique : ∀ (p : Passage) {p' : Passage} {start : Nat} {rest rest' : Text},
    p.IsProper start rest → p'.IsProper start rest' → p.source ++ rest = p'.source ++ rest' →
      p = p' ∧ rest = rest'
  | run written, p', start, rest, rest', h, h', heq => by
    obtain ⟨l, hl, hl'⟩ := exists_shows_both h h' heq
    cases hl
    cases p' with
    | run written' =>
      obtain rfl := (Lexeme.token.inj hl').2
      exact ⟨congrArg run (List.append_cancel_right heq), rfl⟩
    | comment | interpolation | element => simp [Shows] at hl'
  | comment written, p', start, rest, rest', h, h', heq => by
    obtain ⟨l, hl, hl'⟩ := exists_shows_both h h' heq
    cases hl
    cases p' with
    | comment written' =>
      cases hl'
      have hsource := List.append_cancel_right heq
      exact ⟨congrArg comment (List.append_cancel_right (List.cons.inj hsource).2), rfl⟩
    | run | interpolation | element => simp [Shows] at hl'
  | interpolation written, p', start, rest, rest', h, h', heq => by
    obtain ⟨l, hl, hl'⟩ := exists_shows_both h h' heq
    cases hl
    cases p' with
    | interpolation written' =>
      obtain rfl := (Lexeme.token.inj hl').2
      have hsource := List.append_cancel_right heq
      have hwritten := (List.cons.inj (List.cons.inj hsource).2).2
      exact ⟨congrArg interpolation (List.append_cancel_right hwritten), rfl⟩
    | run | comment | element => simp [Shows] at hl'
  | element tag opening content ending, p', start, rest, rest', h, h', heq => by
    obtain ⟨l, hl, hl'⟩ := exists_shows_both h h' heq
    obtain ⟨_, rfl⟩ := hl
    cases p' with
    | element tag' opening' content' ending' =>
      obtain ⟨selfClosing, hopening, hinside⟩ := h
      obtain ⟨selfClosing', hopening', hinside'⟩ := h'
      simp only [source, List.append_assoc] at heq
      obtain ⟨rfl, hbehind, rfl, rfl⟩ := hopening.unique hopening' heq
      by_cases hcomplete : selfClosing || isVoidTag tag.name
      · rw [if_pos hcomplete] at hinside hinside'
        obtain ⟨rfl, rfl⟩ := hinside
        obtain ⟨rfl, rfl⟩ := hinside'
        exact ⟨rfl, hbehind⟩
      · rw [if_neg hcomplete] at hinside hinside'
        obtain ⟨hcontent, hending⟩ := hinside
        obtain ⟨hcontent', hending'⟩ := hinside'
        obtain ⟨rfl, hend⟩ := areProper.unique content hcontent hcontent' hbehind
          hending.atEnd hending'.atEnd
        obtain ⟨rfl, hrest⟩ := hending.unique hending' hend
        exact ⟨rfl, hrest⟩
    | run | comment | interpolation => simp [Shows] at hl'

/-- Passages that make the same markup are the same. -/
theorem areProper.unique : ∀ (ps : List Passage) {ps' : List Passage} {start : Nat}
    {rest rest' : Text}, areProper start rest ps → areProper start rest' ps' →
      sources ps ++ rest = sources ps' ++ rest' → AtEnd rest → AtEnd rest' →
        ps = ps' ∧ rest = rest'
  | [], ps', start, rest, rest', h, h', heq, hend, hend' => by
    cases ps' with
    | nil => exact ⟨rfl, heq⟩
    | cons p' ps' =>
      refine (not_proper_of_atEnd h'.1 ?_).elim
      rw [← List.append_assoc, ← sources, ← heq]
      exact hend
  | p :: ps, ps', start, rest, rest', h, h', heq, hend, hend' => by
    cases ps' with
    | nil =>
      refine (not_proper_of_atEnd h.1 ?_).elim
      rw [← List.append_assoc, ← sources, heq]
      exact hend'
    | cons p' ps' =>
      rw [sources, sources, List.append_assoc, List.append_assoc] at heq
      obtain ⟨rfl, hrest⟩ := IsProper.unique p h.1 h'.1 heq
      obtain ⟨rfl, hbehind⟩ := areProper.unique ps h.2 h'.2 hrest hend hend'
      exact ⟨rfl, hbehind⟩

end

end Passage

/-! ## Reading -/

theorem Node.condense_nil (preformatted : Bool) : condense preformatted [] = [] := by
  cases preformatted <;> rfl

section Reading

open Passage

variable {size start : Nat} {t rest : Text} {r last : Reading}

theorem tokensFrom_cons (size : Nat) (c : Char) (t : Text) :
    tokensFrom size (c :: t) = match lexeme size c t with
      | .token token rest => token :: tokensFrom size rest
      | .comment rest => tokensFrom size rest
      | .fault error => [.fault error] := by
  rw [tokensFrom]
  split <;> simp_all

/-- Reading `t`, which stands at `start`, leads from `r` to `last` over passages. Behind them either
all has been read, or the innermost open element ends and reading goes on behind it. -/
def LeadsTo (size start : Nat) (t : Text) (r last : Reading) : Prop :=
  ∃ ps rest, t = sources ps ++ rest ∧ areProper start rest ps ∧
    ((rest = [] ∧ last = { r with nodes := (nodesAll start ps).reverse ++ r.nodes }) ∨
      ∃ frame frames ending behind, r.frames = frame :: frames ∧ rest = ending ++ behind ∧
        IsEnding behind ending frame.tag ∧
        (tokensFrom size behind).foldlM Reading.step
          ⟨frames, .element frame.tag (Node.condense (frame.tag.name = "pre".toList)
            ((nodesAll start ps).reverse ++ r.nodes).reverse)
            ⟨frame.start, size - byteSize behind⟩ :: frame.before⟩ = .ok last)

/-- One more passage before. -/
theorem LeadsTo.cons {p : Passage} (hp : p.IsProper start rest)
    (h : LeadsTo size (start + byteSize p.source) rest
      { r with nodes := (p.nodes start).reverse ++ r.nodes } last) :
    LeadsTo size start (p.source ++ rest) r last := by
  obtain ⟨ps, behind, rfl, hps, hlast⟩ := h
  have hnodes : (nodesAll (start + byteSize p.source) ps).reverse ++
      ((p.nodes start).reverse ++ r.nodes) = (nodesAll start (p :: ps)).reverse ++ r.nodes := by
    rw [nodesAll, List.reverse_append, List.append_assoc]
  refine ⟨p :: ps, behind, by rw [sources, List.append_assoc], ⟨hp, hps⟩, ?_⟩
  rw [← hnodes]
  exact hlast

/-- An end tag ends the innermost open element. -/
theorem LeadsTo.ending {written : Text}
    (h : cut? ['>'] (written ++ '>' :: rest) = some (written, rest))
    (hsize : start + byteSize ('<' :: '/' :: (written ++ '>' :: rest)) = size)
    (hread : (Token.ending (written.takeWhile isBareChar)
        ⟨start, start + byteSize ('<' :: '/' :: (written ++ ['>']))⟩ ::
      tokensFrom size rest).foldlM Reading.step r = .ok last) :
    LeadsTo size start ('<' :: '/' :: (written ++ '>' :: rest)) r last := by
  have htext : '<' :: '/' :: (written ++ '>' :: rest) =
      '<' :: '/' :: (written ++ ['>']) ++ rest := by simp
  rw [List.foldlM_cons, Reading.step] at hread
  cases hframes : r.frames with
  | nil =>
    rw [hframes] at hread
    cases hread
  | cons frame frames =>
    rw [hframes] at hread
    dsimp only at hread
    by_cases hname : lower frame.tag.name = lower (written.takeWhile isBareChar)
    · rw [if_pos hname] at hread
      refine ⟨[], _, rfl, trivial, .inr ⟨frame, frames, '<' :: '/' :: (written ++ ['>']), rest,
        hframes, htext, ⟨written, rfl, h, hname⟩, ?_⟩⟩
      rw [stop_eq (htext ▸ hsize)]
      exact hread
    · rw [if_neg hname] at hread
      cases hread

/-- An element that is open leads to its end tag, and reading goes on behind that. -/
theorem LeadsTo.element {opening : Text} {tag : Tag} {selfClosing : Bool}
    (hopening : IsOpening start rest opening tag selfClosing)
    (hopen : ¬(selfClosing || isVoidTag tag.name)) (hlast : last.frames = [])
    (hsize : start + byteSize (opening ++ rest) = size)
    (hcontent : LeadsTo size (start + byteSize opening) rest
      ⟨⟨tag, start, r.nodes⟩ :: r.frames, []⟩ last)
    (hgoes : ∀ start' behind (r' : Reading), behind <:+ rest → start' + byteSize behind = size →
      (tokensFrom size behind).foldlM Reading.step r' = .ok last →
        LeadsTo size start' behind r' last) :
    LeadsTo size start (opening ++ rest) r last := by
  obtain ⟨content, rest', rfl, hproper, hend | hend⟩ := hcontent
  · rw [hend.2] at hlast
    cases hlast
  obtain ⟨frame, frames, ending, behind, hframe, rfl, hending, hread⟩ := hend
  obtain ⟨rfl, rfl⟩ := List.cons.inj hframe
  let p : Passage := .element tag opening content ending
  have htext : opening ++ (sources content ++ (ending ++ behind)) = p.source ++ behind := by
    simp only [p, source, List.append_assoc]
  have hp : p.IsProper start behind := by
    refine ⟨selfClosing, hopening, ?_⟩
    rw [if_neg hopen]
    exact ⟨hproper, hending⟩
  have hsuffix : behind <:+ sources content ++ (ending ++ behind) :=
    (List.suffix_append _ _).trans (List.suffix_append _ _)
  rw [htext] at hsize ⊢
  rw [stop_eq hsize, List.append_nil, List.reverse_reverse] at hread
  rw [byteSize_append, ← Nat.add_assoc] at hsize
  exact .cons hp (hgoes _ _ _ hsuffix hsize hread)

/-- Reading to the end leads over passages. -/
theorem leadsTo (hsize : start + byteSize t = size)
    (hread : (tokensFrom size t).foldlM Reading.step r = .ok last) (hlast : last.frames = []) :
    LeadsTo size start t r last := by
  -- reading goes on behind the end of an element, which is any number of lexemes later
  induction hn : t.length using Nat.strongRecOn generalizing t start r with
  | _ n ih =>
    cases t with
    | nil =>
      rw [tokensFrom] at hread
      cases hread
      exact ⟨[], [], rfl, trivial, .inl ⟨rfl, rfl⟩⟩
    | cons c u =>
      have hlexeme := lexemeAt_lexeme hsize
      have hshorter := length_lexeme_lt size c u
      rw [tokensFrom_cons] at hread
      generalize lexeme size c u = l at hlexeme hshorter hread
      generalize c :: u = t at hlexeme hshorter hsize hn ⊢
      subst hn
      -- a passage that is one lexeme
      have hone : ∀ (p : Passage) (rest : Text), t = p.source ++ rest → p.IsProper start rest →
          rest.length < t.length → (tokensFrom size rest).foldlM Reading.step
            { r with nodes := (p.nodes start).reverse ++ r.nodes } = .ok last →
          LeadsTo size start t r last := by
        intro p rest ht hp hlt hrest
        subst ht
        rw [byteSize_append, ← Nat.add_assoc] at hsize
        exact .cons hp (ih _ hlt hsize hrest rfl)
      cases hlexeme with
      | @run written rest h => exact hone (.run written) rest rfl h hshorter hread
      | @comment written rest h => exact hone (.comment written) rest rfl h hshorter hread
      | @interpolation written rest h =>
        exact hone (.interpolation written) rest rfl h hshorter hread
      | @opening opening rest tag selfClosing h =>
        rw [List.foldlM_cons, Reading.step] at hread
        by_cases hcomplete : selfClosing || isVoidTag tag.name
        · rw [if_pos hcomplete] at hread
          have hsource : (Passage.element tag opening [] []).source = opening :=
            List.append_nil opening
          refine hone (.element tag opening [] []) rest (by rw [hsource])
            ⟨selfClosing, h, by rw [if_pos hcomplete]; exact ⟨rfl, rfl⟩⟩ hshorter ?_
          rw [nodes, hsource, nodesAll, Node.condense_nil]
          exact hread
        · rw [if_neg hcomplete] at hread
          refine .element h hcomplete hlast hsize (ih _ hshorter ?_ hread rfl) ?_
          · rw [Nat.add_assoc, ← byteSize_append]
            exact hsize
          · intro start' behind r' hsuffix hsize' hread'
            exact ih _ (Nat.lt_of_le_of_lt hsuffix.length_le hshorter) hsize' hread' rfl
      | ending h => exact .ending h hsize hread
      | fault => cases hread

/-- Markup is made of passages in one way at most. -/
theorem passages_unique {ps ps' : List Passage} (h : areProper 0 [] ps) (h' : areProper 0 [] ps')
    (heq : sources ps = sources ps') : ps = ps' :=
  (areProper.unique ps h h' (congrArg (· ++ []) heq) (.inl rfl) (.inl rfl)).1

/-- Markup that has a tree is made of passages, and its tree is theirs. -/
theorem exists_passages {source : Text} {nodes : List Node} (h : parse source = .ok nodes) :
    ∃ ps, sources ps = source ∧ areProper 0 [] ps ∧
      nodes = Node.condense false (nodesAll 0 ps) := by
  rw [parse, tokens] at h
  split at h
  · rename_i last hread
    rw [Reading.finish] at h
    split at h
    · rename_i hframes
      cases h
      obtain ⟨ps, rest, rfl, hps, hend | hend⟩ := leadsTo (Nat.zero_add _) hread hframes
      · obtain ⟨rfl, rfl⟩ := hend
        refine ⟨ps, (List.append_nil _).symm, hps, ?_⟩
        simp [Reading.start]
      · obtain ⟨frame, frames, _, _, hframe, -⟩ := hend
        cases hframe
    · cases h
  · cases h

end Reading

end ModuleServer.Template
