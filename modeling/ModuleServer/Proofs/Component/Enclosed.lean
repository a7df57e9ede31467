import Mathlib.Control.Monad.Basic
import ModuleServer.Component.Scan
import ModuleServer.Proofs.Template.Lexeme
import ModuleServer.Proofs.Text.Cut
import ModuleServer.Template.Tree

/-!
# Markup in a component file

Two readers have to agree on where the template of a component file ends. Reading the file counts
the landmarks of templates; reading the markup keeps track of the elements that are open. For markup
that can be read, the file holds exactly that markup if the count comes out at its end
(`parse_enclosed`).

That is so if the landmarks are the template tags (`agrees`): each template tag is a landmark, and
no landmark starts inside of a tag, an interpolation or an end tag. The count is then the number of
templates that are open (`templateBody_of_agrees`).
-/

namespace ModuleServer.Component

open Text

/-- The tag in front of the markup. -/
def templateStart : Text := "<template>".toList

/-- The tag behind the markup. -/
def templateEnd : Text := "</template>".toList

/-- A component file with nothing but a template. -/
def enclose (markup : Text) : Text :=
  templateStart ++ (markup ++ templateEnd)

/-! ## Agreement -/

/-- Whether a tag is one of a template, in any case of letters. -/
def namesTemplate (name : Text) : Bool :=
  lower name = "template".toList

/-- Whether no landmark stands at one of the first places of a text. -/
def isQuiet : (places : Nat) → Text → Bool
  | 0, _ => true
  | _ + 1, [] => true
  | places + 1, c :: t => landmark (c :: t) = .other && isQuiet places t

/-- Whether a landmark is a closing template tag. -/
def Landmark.isClosing : Landmark → Bool
  | .closing _ => true
  | _ => false

/-- Whether the landmark at the start of a text is what the token there is. -/
def isMarked (t : Text) : Template.Token → Bool
  | .opening tag selfClosing _ =>
    landmark t = if namesTemplate tag.name && !selfClosing then .opening else .other
  | .ending name _ => if namesTemplate name then (landmark t).isClosing else landmark t = .other
  | _ => true

/-- Whether a token is a run of text. -/
def isRun : Template.Token → Bool
  | .text .. => true
  | _ => false

theorem exists_of_isRun {token : Template.Token} (h : isRun token) :
    ∃ content span, token = .text content span := by
  cases token with
  | text content span => exact ⟨content, span, rfl⟩
  | interpolation => cases h
  | opening => cases h
  | ending => cases h
  | fault => cases h

/-- Whether the landmarks of markup, of which `t` is left to read, are its template tags. -/
def agreesFrom (size : Nat) (t : Text) : Bool :=
  match t with
  | [] => true
  | c :: r =>
    match _h : Template.lexeme size c r with
    | .token token rest =>
      isMarked (c :: r ++ templateEnd) token &&
        (isRun token || isQuiet (r.length - rest.length) (r ++ templateEnd)) && agreesFrom size rest
    | .comment rest => agreesFrom size rest
    | .fault _ => true
termination_by t.length
decreasing_by
  all_goals
    have := Template.length_lexeme_lt size c r
    simpa only [_h, Template.Lexeme.rest] using this

/-- Whether the landmarks of markup are its template tags. -/
def agrees (markup : Text) : Bool :=
  agreesFrom (byteSize markup) markup

/-! ## Steps of the count -/

section Steps

variable {depth : Nat} {c : Char} {t body behind : Text}

/-- The count goes on from a landmark to the next. -/
theorem templateBody_cons (depth : Nat) (c : Char) (t : Text) :
    templateBody depth (c :: t) =
      match landmark (c :: t), depth with
      | .comment whole rest, depth =>
        (templateBody depth rest).map fun (body, behind) => (whole ++ body, behind)
      | .openComment, _ => none
      | .closing rest, 0 => some ([], rest)
      | .closing _, depth + 1 =>
        (templateBody depth t).map fun (body, behind) => (c :: body, behind)
      | .opening, depth =>
        (templateBody (depth + 1) t).map fun (body, behind) => (c :: body, behind)
      | .other, depth =>
        (templateBody depth t).map fun (body, behind) => (c :: body, behind) := by
  rw [templateBody.eq_def]
  dsimp only
  split <;> rename_i hmark <;> rw [hmark]

theorem templateBody_other (hmark : landmark (c :: t) = .other)
    (h : templateBody depth t = some (body, behind)) :
    templateBody depth (c :: t) = some (c :: body, behind) := by
  rw [templateBody_cons, hmark]
  exact congrArg (Option.map _) h

theorem templateBody_opening (hmark : landmark (c :: t) = .opening)
    (h : templateBody (depth + 1) t = some (body, behind)) :
    templateBody depth (c :: t) = some (c :: body, behind) := by
  rw [templateBody_cons, hmark]
  exact congrArg (Option.map _) h

theorem templateBody_closing (hmark : (landmark (c :: t)).isClosing)
    (h : templateBody depth t = some (body, behind)) :
    templateBody (depth + 1) (c :: t) = some (c :: body, behind) := by
  rw [templateBody_cons]
  cases hlandmark : landmark (c :: t) with
  | closing rest => exact congrArg (Option.map _) h
  | comment whole rest => simp [hlandmark, Landmark.isClosing] at hmark
  | openComment => simp [hlandmark, Landmark.isClosing] at hmark
  | opening => simp [hlandmark, Landmark.isClosing] at hmark
  | other => simp [hlandmark, Landmark.isClosing] at hmark

theorem templateBody_comment {whole rest : Text} (hmark : landmark (c :: t) = .comment whole rest)
    (h : templateBody depth rest = some (body, behind)) :
    templateBody depth (c :: t) = some (whole ++ body, behind) := by
  rw [templateBody_cons, hmark]
  exact congrArg (Option.map _) h

/-- Places without a landmark belong to the body. -/
theorem templateBody_quiet {quiet : Text} (hquiet : isQuiet quiet.length (quiet ++ t))
    (h : templateBody depth t = some (body, behind)) :
    templateBody depth (quiet ++ t) = some (quiet ++ body, behind) := by
  induction quiet with
  | nil => exact h
  | cons c quiet ih =>
    rw [List.length_cons, List.cons_append, isQuiet, Bool.and_eq_true, decide_eq_true_eq] at hquiet
    exact templateBody_other hquiet.1 (ih hquiet.2)

end Steps

/-! ## Landmarks of lexemes -/

section Landmarks

variable {c : Char} {t : Text}

theorem after?_of_headIs {a : Char} (word : Text) (h : headIs (· = a) t = false) :
    after? (a :: word) t = none := by
  cases t with
  | nil => rfl
  | cons c t =>
    have hne : a ≠ c := Ne.symm (of_decide_eq_false h)
    exact if_neg hne

/-- Landmarks start with an angle bracket. -/
theorem landmark_of_ne (h : c ≠ '<') : landmark (c :: t) = .other := by
  have hafter : ∀ word, after? ('<' :: word) (c :: t) = none := fun word => if_neg (Ne.symm h)
  have hcomment : startsWith commentStart (c :: t) = false := by
    rw [startsWith, commentStart, hafter]
    rfl
  have hclose : after? templateClose (c :: t) = none := hafter _
  have hopen : after? templateOpen (c :: t) = none := hafter _
  rw [landmark, hcomment, hclose, hopen]
  rfl

/-- What does not start a text does not start it with the closing tag behind it. -/
theorem headIs_enclosed {p : Char → Bool} (hp : p '<' = false) (h : headIs p t = false) :
    headIs p (t ++ templateEnd) = false := by
  cases t with
  | nil => exact hp
  | cons c t => exact h

theorem startsWith_enclosed (h : startsWith ['!', '-', '-'] t = false) :
    startsWith ['!', '-', '-'] (t ++ templateEnd) = false := by
  have hend : ∃ rest, templateEnd = '<' :: rest := ⟨_, rfl⟩
  obtain ⟨rest, hend⟩ := hend
  rw [hend]
  match t, h with
  | [], _ => rfl
  | [a], _ => simp [startsWith, after?]
  | [a, b], _ => simp [startsWith, after?]
  | a :: b :: d :: t, h => simpa [startsWith, after?] using h

/-- Behind the angle bracket of a landmark stands a letter, a slash, or the start of a comment. -/
theorem landmark_of_text (h : c = '<' → headIs Char.isAlpha t = false ∧
      headIs (· = '/') t = false ∧ startsWith ['!', '-', '-'] t = false) :
    landmark (c :: (t ++ templateEnd)) = .other := by
  by_cases hc : c = '<'
  · obtain ⟨halpha, hslash, hcomment⟩ := h hc
    subst hc
    have hafter : ∀ word, after? ('<' :: word) ('<' :: (t ++ templateEnd)) =
        after? word (t ++ templateEnd) := fun word => if_pos rfl
    have hcomment' : startsWith commentStart ('<' :: (t ++ templateEnd)) = false := by
      rw [startsWith, commentStart, hafter]
      exact startsWith_enclosed hcomment
    have hclose : after? templateClose ('<' :: (t ++ templateEnd)) = none :=
      (hafter _).trans (after?_of_headIs _ (headIs_enclosed rfl hslash))
    have hopen : after? templateOpen ('<' :: (t ++ templateEnd)) = none := by
      refine (hafter _).trans (after?_of_headIs _ (headIs_enclosed rfl ?_))
      cases t with
      | nil => rfl
      | cons d t =>
        refine decide_eq_false fun hd => ?_
        rw [headIs, hd] at halpha
        exact absurd halpha (by decide)
    rw [landmark, hcomment', hclose, hopen]
    rfl
  · exact landmark_of_ne hc

/-- Where nothing stops a text there is no landmark. -/
theorem landmark_of_stopsText (h : Template.stopsText (c :: t) = false) :
    landmark (c :: (t ++ templateEnd)) = .other := by
  refine landmark_of_text fun hc => ?_
  subst hc
  cases t with
  | nil => exact ⟨rfl, rfl, rfl⟩
  | cons d t =>
    simp only [Template.stopsText, Bool.or_eq_false_iff, decide_eq_false_iff_not] at h
    refine ⟨h.1.1, decide_eq_false h.1.2, ?_⟩
    rw [startsWith, after?, if_neg (Ne.symm h.2)]
    rfl

/-- There is no landmark in a run of text. -/
theorem isQuiet_run (run : Text) (hstops : ∀ before behind, run = before ++ behind →
      behind ≠ [] → Template.stopsText (behind ++ t) = false) :
    isQuiet run.length (run ++ (t ++ templateEnd)) := by
  induction run with
  | nil => rfl
  | cons c run ih =>
    have hfirst := hstops [] (c :: run) rfl (List.cons_ne_nil _ _)
    rw [List.length_cons, List.cons_append, isQuiet, Bool.and_eq_true, decide_eq_true_eq,
      ← List.append_assoc]
    refine ⟨landmark_of_stopsText hfirst, ?_⟩
    rw [List.append_assoc]
    exact ih fun before behind h hne => hstops (c :: before) behind (congrArg (c :: ·) h) hne

/-! ## Cuts -/

/-- A comment of the markup is a comment of the file. -/
theorem landmark_of_comment {r comment rest : Text}
    (hcut : cut? ['-', '-', '>'] t = some (comment, rest)) (ht : t = '!' :: '-' :: '-' :: r) :
    landmark ('<' :: (t ++ templateEnd)) =
      .comment ('<' :: (comment ++ commentEnd)) (rest ++ templateEnd) := by
  have hcomment : startsWith commentStart ('<' :: (t ++ templateEnd)) = true := by
    rw [ht]
    rfl
  have hcut' : cut? commentEnd ('<' :: (t ++ templateEnd)) =
      some ('<' :: comment, rest ++ templateEnd) := by
    have hfirst : after? commentEnd ('<' :: (t ++ templateEnd)) = none := rfl
    rw [cut?, hfirst, commentEnd, cut?_append_right (List.cons_ne_nil _ _) hcut]
    rfl
  rw [landmark, hcomment, if_pos rfl, hcut']
  rfl

end Landmarks

/-! ## The count and the open elements -/

/-- The number of templates that are open. -/
def openTemplates (frames : List Template.Frame) : Nat :=
  frames.countP fun frame => namesTemplate frame.tag.name

theorem openTemplates_cons (frame : Template.Frame) (frames : List Template.Frame) :
    openTemplates (frame :: frames) =
      openTemplates frames + if namesTemplate frame.tag.name then 1 else 0 :=
  List.countP_cons ..

theorem isVoidTag_eq_false {name : Text} (h : namesTemplate name) :
    Template.isVoidTag name = false := by
  rw [Template.isVoidTag, ← Bool.not_eq_true, List.contains_iff_mem]
  intro hmem
  have hall : ∀ tag ∈ Template.voidTags, namesTemplate tag = false := by decide
  exact absurd (h.symm.trans (hall name hmem)) Bool.noConfusion

theorem agreesFrom_token {size : Nat} {c : Char} {r rest : Text} {token : Template.Token}
    (h : Template.lexeme size c r = .token token rest) :
    agreesFrom size (c :: r) = (isMarked (c :: r ++ templateEnd) token &&
      (isRun token || isQuiet (r.length - rest.length) (r ++ templateEnd)) &&
      agreesFrom size rest) := by
  rw [agreesFrom]
  split <;> simp_all

theorem agreesFrom_comment {size : Nat} {c : Char} {r rest : Text}
    (h : Template.lexeme size c r = .comment rest) :
    agreesFrom size (c :: r) = agreesFrom size rest := by
  rw [agreesFrom]
  split <;> simp_all

/-- What a token does to the open elements its landmark does to the count. -/
theorem templateBody_step {c : Char} {t body behind : Text} {token : Template.Token}
    {reading next : Template.Reading} (hstep : reading.step token = .ok next)
    (hmarked : isMarked (c :: t) token)
    (hother : isRun token ∨ (∃ exp span, token = .interpolation exp span) →
      landmark (c :: t) = .other)
    (h : templateBody (openTemplates next.frames) t = some (body, behind)) :
    templateBody (openTemplates reading.frames) (c :: t) = some (c :: body, behind) := by
  cases token with
  | text content span =>
    cases hstep
    exact templateBody_other (hother (.inl rfl)) h
  | interpolation exp span =>
    cases hstep
    exact templateBody_other (hother (.inr ⟨exp, span, rfl⟩)) h
  | opening tag selfClosing span =>
    rw [isMarked, decide_eq_true_eq] at hmarked
    rw [Template.Reading.step] at hstep
    by_cases hopens : namesTemplate tag.name && !selfClosing
    · -- one more template is open
      rw [if_pos hopens] at hmarked
      rw [Bool.and_eq_true, Bool.not_eq_true'] at hopens
      rw [hopens.2, isVoidTag_eq_false hopens.1] at hstep
      cases hstep
      refine templateBody_opening hmarked ?_
      rwa [openTemplates_cons, if_pos hopens.1] at h
    · rw [if_neg hopens] at hmarked
      refine templateBody_other hmarked ?_
      split at hstep
      · cases hstep
        exact h
      · rename_i hcomplete
        cases hstep
        have hname : ¬namesTemplate tag.name := by
          intro hname
          rw [Bool.or_eq_true, not_or] at hcomplete
          simp [hname, hcomplete.1] at hopens
        rwa [openTemplates_cons, if_neg hname] at h
  | ending name span =>
    rw [isMarked] at hmarked
    rw [Template.Reading.step] at hstep
    split at hstep
    · cases hstep
    · rename_i frame frames hframes
      split at hstep
      · rename_i hname
        cases hstep
        have hsame : namesTemplate frame.tag.name = namesTemplate name := by
          rw [namesTemplate, namesTemplate, hname]
        rw [hframes, openTemplates_cons, hsame]
        by_cases htemplate : namesTemplate name
        · -- one template less is open
          rw [if_pos htemplate] at hmarked
          rw [if_pos htemplate]
          exact templateBody_closing hmarked h
        · rw [if_neg htemplate, decide_eq_true_eq] at hmarked
          rw [if_neg htemplate]
          exact templateBody_other hmarked h
      · cases hstep
  | fault error => cases hstep

/-- In markup whose landmarks are its template tags, the count is the number of templates that are
open, so it comes out at the end of the markup if all elements are closed there. -/
theorem templateBody_of_agrees {size : Nat} {t : Text} {reading last : Template.Reading}
    (hread : (Template.tokensFrom size t).foldlM Template.Reading.step reading = .ok last)
    (hclosed : last.frames = []) (hagrees : agreesFrom size t) :
    templateBody (openTemplates reading.frames) (t ++ templateEnd) = some (t, []) := by
  fun_induction Template.tokensFrom size t generalizing reading with
  | case1 =>
    cases hread
    have hmark : landmark templateEnd = .closing [] := rfl
    have hend : templateEnd = '<' :: "/template>".toList := rfl
    rw [hclosed, List.nil_append, hend, templateBody_cons, ← hend, hmark]
    rfl
  | case2 c r token rest hlexeme ih =>
    rw [agreesFrom_token hlexeme, Bool.and_eq_true, Bool.and_eq_true, Bool.or_eq_true] at hagrees
    obtain ⟨⟨hmarked, hquiet⟩, hagrees⟩ := hagrees
    rw [List.foldlM_cons] at hread
    cases hstep : reading.step token with
    | error e =>
      rw [hstep] at hread
      cases hread
    | ok next =>
      rw [hstep] at hread
      have hrest := ih hread hagrees
      obtain ⟨consumed, rfl⟩ : rest <:+ r := by
        have hsuffix := Template.lexeme_suffix size c r
        rwa [hlexeme] at hsuffix
      rw [List.length_append, Nat.add_sub_cancel, List.append_assoc] at hquiet
      rw [List.cons_append, List.append_assoc] at hmarked ⊢
      refine templateBody_step hstep hmarked ?_ (templateBody_quiet ?_ hrest)
      · rintro (hrun | ⟨exp, span, rfl⟩)
        · obtain ⟨content, span, rfl⟩ := exists_of_isRun hrun
          rw [← List.append_assoc]
          exact landmark_of_text (Template.lexeme_eq_text hlexeme).2
        · refine landmark_of_ne ?_
          rw [Template.lexeme_eq_interpolation hlexeme]
          decide
      · rcases hquiet with hrun | hquiet
        · obtain ⟨content, span, rfl⟩ := exists_of_isRun hrun
          have hrest := (Template.lexeme_eq_text hlexeme).1
          obtain ⟨hmake, hstops⟩ := Template.readRun_eq (consumed ++ rest)
          rw [← hrest] at hmake hstops
          rw [List.append_cancel_right hmake] at hstops
          exact isQuiet_run consumed hstops
        · exact hquiet
  | case3 c r rest hlexeme ih =>
    rw [agreesFrom_comment hlexeme] at hagrees
    have hrest := ih hread hagrees
    obtain ⟨rfl, ⟨behind, hstart⟩, comment, hcut⟩ := Template.lexeme_eq_comment hlexeme
    have hwhole : r = comment ++ commentEnd ++ rest := eq_of_cut? hcut
    have hbody := templateBody_comment (landmark_of_comment hcut hstart) hrest
    rw [hwhole] at hbody ⊢
    simpa using hbody
  | case4 c r error hlexeme =>
    cases hread

/-! ## The whole file -/

/-- The component with a template that holds a text, and nothing else. -/
def holding (content : Text) : Component :=
  ⟨some ⟨content, [], ⟨byteSize templateStart, byteSize templateStart + byteSize content⟩⟩,
    none, none⟩

theorem readTag_templateStart (t : Text) :
    readTag ("template>".toList ++ t) = .ok (⟨"template".toList, [], false⟩, t) := by
  have hname : ("template>".toList ++ t).takeWhile isTagChar = "template".toList := rfl
  have hrest : ("template>".toList ++ t).dropWhile isTagChar = '>' :: t := rfl
  have htrim : trimStart ('>' :: t) = '>' :: t := rfl
  have hlower : lower "template".toList = "template".toList := rfl
  rw [readTag, hname, hrest, hlower, readAttributes.eq_def]
  split <;> simp_all [Except.map]

/-- A block is read, and reading goes on behind it. -/
theorem scan_block {size : Nat} {found : Component} {t inside : Text} {tag : OpenTag}
    (hcomment : startsWith commentStart ('<' :: t) = false) (halpha : headIs Char.isAlpha t)
    (htag : readTag t = .ok (tag, inside)) :
    scan size found ('<' :: t) =
      match blockBody tag inside with
      | none => .error ⟨.missingEndTag tag.name, ⟨size - byteSize ('<' :: t), size⟩⟩
      | some (body, rest) =>
        let start := size - byteSize inside
        match found.add tag.name ⟨body, tag.attributes, ⟨start, start + byteSize body⟩⟩
            ⟨size - byteSize ('<' :: t), size - byteSize rest⟩ with
        | .error e => .error e
        | .ok found => scan size found rest := by
  rw [scan.eq_def]
  dsimp only
  rw [if_neg (by simp), hcomment, if_neg Bool.false_ne_true, if_pos halpha]
  split
  · rename_i hfault
    rw [htag] at hfault
    cases hfault
  · rename_i hok
    rw [htag] at hok
    cases hok
    split
    · rename_i hbody
      exact hbody ▸ rfl
    · rename_i hbody
      exact hbody ▸ rfl

/-- A file with nothing but a template is read up to the end of the template. -/
theorem parse_enclose_eq (markup : Text) :
    parse (enclose markup) = match templateBody 0 (markup ++ templateEnd) with
      | none => .error ⟨.missingEndTag "template".toList, ⟨0, byteSize (enclose markup)⟩⟩
      | some (body, rest) => scan (byteSize (enclose markup)) (holding body) rest := by
  have hstart : enclose markup =
      '<' :: ("template>".toList ++ (markup ++ templateEnd)) := rfl
  have hinside : byteSize (enclose markup) - byteSize (markup ++ templateEnd) =
      byteSize templateStart := by
    rw [enclose, byteSize_append, Nat.add_sub_cancel]
  have hbody : blockBody ⟨"template".toList, [], false⟩ (markup ++ templateEnd) =
      templateBody 0 (markup ++ templateEnd) := by
    rw [blockBody, if_neg Bool.false_ne_true]
    exact if_pos rfl
  have hscan : scan (byteSize (enclose markup)) empty
      ('<' :: ("template>".toList ++ (markup ++ templateEnd))) = _ :=
    scan_block rfl rfl (readTag_templateStart (markup ++ templateEnd))
  rw [← hstart, hbody, hinside, Nat.sub_self] at hscan
  rw [parse, hscan]
  cases templateBody 0 (markup ++ templateEnd) with
  | none => rfl
  | some found => rfl

theorem template_of_add {found next : Component} {name : Text} {block other : Block} {whole : Span}
    (h : found.add name other whole = .ok next) (htemplate : found.template = some block) :
    next.template = some block := by
  rw [add, htemplate] at h
  split at h
  · cases h
  split at h
  · split at h
    · split at h
      · cases h
      · cases h
        rfl
    · split at h
      · cases h
      · cases h
        rfl
  · cases h
    exact htemplate

/-- The template of a file stays what it is once it has been read. -/
theorem template_of_scan {size : Nat} {found last : Component} {t : Text} {block : Block}
    (h : scan size found t = .ok last) (htemplate : found.template = some block) :
    last.template = some block := by
  fun_induction scan size found t with
  | case1 =>
    cases h
    exact htemplate
  | case2 => rename_i ih; exact ih h htemplate
  | case3 => rename_i ih; exact ih h htemplate
  | case4 => cases h
  | case5 => cases h
  | case6 => cases h
  | case7 => cases h
  | case8 =>
    rename_i hadd ih
    exact ih h (template_of_add hadd htemplate)
  | case9 => rename_i ih; exact ih h htemplate

theorem text_of_landmark_comment {t whole rest : Text} (h : landmark t = .comment whole rest) :
    t = whole ++ rest := by
  rw [landmark] at h
  split at h
  · split at h
    · rename_i hcut
      cases h
      exact eq_of_cut? hcut
    · cases h
  · split at h
    · split at h <;> cases h
    · split at h <;> cases h
    · cases h

/-- Behind the body stands the landmark that closes it. -/
theorem templateBody_split {depth : Nat} {t body rest : Text}
    (h : templateBody depth t = some (body, rest)) :
    ∃ tail, t = body ++ tail ∧ landmark tail = .closing rest := by
  fun_induction templateBody depth t generalizing body with
  | case1 => cases h
  | case2 depth c r whole behind hmark ih =>
    obtain ⟨⟨inner, rest'⟩, hinner, heq⟩ := Option.map_eq_some_iff.1 h
    cases heq
    obtain ⟨tail, htail, hclosing⟩ := ih hinner
    refine ⟨tail, ?_, hclosing⟩
    rw [text_of_landmark_comment hmark, htail, List.append_assoc]
  | case3 => cases h
  | case4 c r behind hmark =>
    cases h
    exact ⟨c :: r, rfl, hmark⟩
  | case5 c r behind inner hmark ih | case6 depth c r hmark ih | case7 depth c r hmark ih =>
    obtain ⟨⟨inner, rest'⟩, hinner, heq⟩ := Option.map_eq_some_iff.1 h
    cases heq
    obtain ⟨tail, htail, hclosing⟩ := ih hinner
    exact ⟨tail, congrArg (c :: ·) htail, hclosing⟩

theorem finish_eq_ok {size : Nat} {last : Template.Reading} {nodes : List Template.Node}
    (h : last.finish size = .ok nodes) : last.frames = [] := by
  rw [Template.Reading.finish] at h
  split at h
  · assumption
  · cases h

/-- The body of a template ends with the markup or before a landmark inside of it. -/
theorem templateBody_cases {markup body rest : Text}
    (h : templateBody 0 (markup ++ templateEnd) = some (body, rest)) :
    (body = markup ∧ rest = []) ∨ ∃ tail, tail ≠ [] ∧ markup = body ++ tail ∧
      landmark (tail ++ templateEnd) = .closing rest := by
  have hend : templateEnd = '<' :: "/template>".toList := rfl
  -- what closes the body is the tag behind the markup, if it is not inside of the markup
  have hwhole : ∀ rest, landmark templateEnd = .closing rest → rest = [] := by
    intro rest hclosing
    have hmark : landmark templateEnd = .closing [] := rfl
    rw [hmark] at hclosing
    cases hclosing
    rfl
  obtain ⟨tail, htail, hclosing⟩ := templateBody_split h
  rcases List.append_eq_append_iff.1 htail with ⟨extra, rfl, hextra⟩ | ⟨inside, hmarkup, rfl⟩
  · cases extra with
    | nil =>
      rw [List.nil_append] at hextra
      rw [← hextra] at hclosing
      exact .inl ⟨List.append_nil _, hwhole rest hclosing⟩
    | cons c extra =>
      -- no landmark starts inside of that tag
      have hrest : "/template>".toList = extra ++ tail := by
        rw [hend] at hextra
        exact (List.cons.inj hextra).2
      have hother : landmark tail = .other := by
        cases tail with
        | nil => rfl
        | cons d tail =>
          refine landmark_of_ne ?_
          rintro rfl
          have hmem : '<' ∈ "/template>".toList := by
            rw [hrest]
            exact List.mem_append_right _ (List.mem_cons_self ..)
          exact absurd hmem (by decide)
      rw [hother] at hclosing
      cases hclosing
  · by_cases hinside : inside = []
    · subst hinside
      rw [List.append_nil] at hmarkup
      exact .inl ⟨hmarkup.symm, hwhole rest hclosing⟩
    · exact .inr ⟨inside, hinside, hmarkup, hclosing⟩

/-- Markup that can be read stands as a whole in a component file if its landmarks are its template
tags. If it does not, the file is refused for a template without its end tag, or the template ends
before a closing landmark inside of the markup. -/
theorem parse_enclose {markup : Text} {nodes : List Template.Node}
    (hparse : Template.parse markup = .ok nodes) :
    (agrees markup → parse (enclose markup) = .ok (holding markup)) ∧
    (parse (enclose markup) ≠ .ok (holding markup) →
      parse (enclose markup) =
        .error ⟨.missingEndTag "template".toList, ⟨0, byteSize (enclose markup)⟩⟩ ∨
      ∃ body tail rest, markup = body ++ tail ∧ tail ≠ [] ∧
        landmark (tail ++ templateEnd) = .closing rest ∧
        ∀ c, parse (enclose markup) = .ok c → c.template = (holding body).template) := by
  rw [parse_enclose_eq]
  constructor
  · intro hagrees
    rw [Template.parse, Template.tokens] at hparse
    cases hread : (Template.tokensFrom (byteSize markup) markup).foldlM Template.Reading.step
        Template.Reading.start with
    | error e =>
      rw [hread] at hparse
      cases hparse
    | ok last =>
      rw [hread] at hparse
      have hbody := templateBody_of_agrees hread (finish_eq_ok hparse) hagrees
      have hnone : openTemplates Template.Reading.start.frames = 0 := rfl
      rw [hnone] at hbody
      rw [hbody]
      dsimp only
      rw [scan]
  · intro hne
    cases hbody : templateBody 0 (markup ++ templateEnd) with
    | none => exact .inl rfl
    | some found =>
      obtain ⟨body, rest⟩ := found
      rcases templateBody_cases hbody with ⟨rfl, rfl⟩ | ⟨tail, htail, hmarkup, hclosing⟩
      · rw [hbody] at hne
        dsimp only at hne
        rw [scan] at hne
        exact absurd rfl hne
      · refine .inr ⟨body, tail, rest, hmarkup, htail, hclosing, fun c hc => ?_⟩
        exact template_of_scan hc rfl

/-- What the markup of a nested template, a comment and an empty template is read as. -/
def nestedTemplate : List Template.Node :=
  [.element ⟨"template".toList, .template,
      [.directive ⟨"if".toList, none, some "a > b".toList, [], ⟨10, 22⟩⟩]⟩
    [.element ⟨"br".toList, .native, []⟩ [] ⟨23, 28⟩] ⟨0, 39⟩,
    .element ⟨"template".toList, .template, []⟩ [] ⟨59, 70⟩]

theorem parse_enclose_nestedTemplate :
    let markup := "<template v-if=\"a > b\"><br/></template>".toList ++
      "<!-- </template> --><template/>".toList
    Template.parse markup = .ok nestedTemplate ∧ agrees markup ∧
      parse (enclose markup) = .ok (holding markup) := by
  intro markup
  have hparse : Template.parse markup = .ok nestedTemplate := by decide +kernel
  have hagrees : agrees markup := by decide +kernel
  exact ⟨hparse, hagrees, (parse_enclose hparse).1 hagrees⟩

/-- An angle bracket in the value of an attribute hides that the tag closes itself. -/
example : parse (enclose "<template v-if=\"a > b\"/>".toList) =
    .error ⟨.missingEndTag "template".toList, ⟨0, 45⟩⟩ := by
  decide +kernel

end ModuleServer.Component
