import ModuleServer.Proofs.Component.Enclosed
import ModuleServer.Proofs.Component.Print
import ModuleServer.Proofs.Text.Cut
import ModuleServer.Proofs.Text.Run

/-!
# Reading component files back

Reading undoes printing. Each reader stops where what was printed stops: attributes at the end of
the tag (`readTag_print`), a raw body at its closing tag (`rawBody_print`), and the body of a
template at the closing tag that brings the count back (`templateBody_print`, with any number of
templates open around it). So each section is read as what it is (`scan_section`), and a file as its
blocks (`parse_written`).
-/

namespace ModuleServer.Component

open Text

/-! ## Where nothing starts -/

section Marks

variable {c d : Char} {word s t rest : Text}

theorem endsName_append (s : Text) (d : Char) (rest : Text) :
    endsName (s ++ d :: rest) = endsName (s ++ [d]) := by
  cases s <;> rfl

theorem after?_append_cons {word : Text} (hd : d ∉ word) (s rest : Text) :
    after? word (s ++ d :: rest) = (after? word s).map (· ++ d :: rest) := by
  induction word generalizing s with
  | nil => rfl
  | cons a word ih =>
    rw [List.mem_cons, not_or] at hd
    cases s with
    | nil => exact if_neg (Ne.symm hd.1)
    | cons c s =>
      rw [List.cons_append, after?, after?]
      split
      · exact ih hd.2 s
      · rfl

/-- Whether a word starts a text is decided before the next character that is none of the word. -/
theorem after?_of_not_mem {a : Char} (hs : s ≠ []) (hd : d ∉ word) (rest : Text) :
    after? (a :: word) (s ++ d :: rest) = (after? (a :: word) s).map (· ++ d :: rest) := by
  cases s with
  | nil => exact absurd rfl hs
  | cons c s =>
    rw [List.cons_append, after?, after?]
    split
    · exact after?_append_cons hd s rest
    · rfl

theorem startsWith_of_not_mem {a : Char} (hs : s ≠ []) (hd : d ∉ word) (rest : Text) :
    startsWith (a :: word) (s ++ d :: rest) = startsWith (a :: word) s := by
  rw [startsWith, startsWith, after?_of_not_mem hs hd, Option.isSome_map]

theorem startsTag_of_not_mem {a : Char} (hs : s ≠ []) (hd : d ∉ word) (rest : Text) :
    startsTag (a :: word) (s ++ d :: rest) = startsTag (a :: word) (s ++ [d]) := by
  rw [startsTag, startsTag, after?_of_not_mem hs hd, after?_of_not_mem hs hd]
  cases after? (a :: word) s with
  | none => rfl
  | some behind => exact endsName_append behind d rest

/-- A bracket ends what could start a tag. -/
theorem startsTag_bracket {a : Char} (hs : s ≠ []) (hd : '<' ∉ word) (rest : Text) :
    startsTag (a :: word) (s ++ '<' :: rest) = startsTag (a :: word) s := by
  rw [startsTag, startsTag, after?_of_not_mem hs hd]
  cases after? (a :: word) s with
  | none => rfl
  | some behind => cases behind <;> rfl

/-- What starts a text is decided before the next bracket. -/
theorem startsMark_append (hs : s ≠ []) (rest : Text) :
    startsMark (s ++ '<' :: rest) = startsMark s := by
  have hcomment : startsWith commentStart (s ++ '<' :: rest) = startsWith commentStart s :=
    startsWith_of_not_mem hs (by decide) rest
  have hclose : startsTag templateClose (s ++ '<' :: rest) = startsTag templateClose s :=
    startsTag_bracket hs (by decide) rest
  have hopen : startsTag templateOpen (s ++ '<' :: rest) = startsTag templateOpen s :=
    startsTag_bracket hs (by decide) rest
  have hslash : startsWith (templateOpen ++ ['/']) (s ++ '<' :: rest) =
      startsWith (templateOpen ++ ['/']) s := startsWith_of_not_mem hs (by decide) rest
  rw [startsMark, startsMark, hcomment, hclose, hopen, hslash]

theorem startsMark_tag (hs : s ≠ []) (rest : Text) :
    startsMark (s ++ '>' :: rest) = startsMark (s ++ ['>']) := by
  have hcomment : ∀ rest, startsWith commentStart (s ++ '>' :: rest) = startsWith commentStart s :=
    startsWith_of_not_mem hs (by decide)
  have hclose : startsTag templateClose (s ++ '>' :: rest) = startsTag templateClose (s ++ ['>']) :=
    startsTag_of_not_mem hs (by decide) rest
  have hopen : startsTag templateOpen (s ++ '>' :: rest) = startsTag templateOpen (s ++ ['>']) :=
    startsTag_of_not_mem hs (by decide) rest
  have hslash : ∀ rest, startsWith (templateOpen ++ ['/']) (s ++ '>' :: rest) =
      startsWith (templateOpen ++ ['/']) s := startsWith_of_not_mem hs (by decide)
  rw [startsMark, startsMark, hcomment, hcomment, hclose, hopen, hslash, hslash]

/-- Where nothing starts there is no landmark. -/
theorem landmark_of_startsMark (h : startsMark t = false) : landmark t = .other := by
  simp only [startsMark, startsTag, Bool.or_eq_false_iff] at h
  obtain ⟨⟨⟨hcomment, hclose⟩, hopen⟩, hslash⟩ := h
  rw [landmark, hcomment, if_neg Bool.false_ne_true]
  cases hafter : after? templateClose t with
  | some behind =>
    rw [hafter] at hclose
    dsimp only at hclose ⊢
    rw [hclose, if_neg Bool.false_ne_true]
  | none =>
    cases hbehind : after? templateOpen t with
    | none => rfl
    | some behind =>
      rw [hbehind] at hopen
      obtain rfl := after?_eq_some.1 hbehind
      have hnot : headIs (· = '/') behind = false := by
        cases behind with
        | nil => rfl
        | cons c behind =>
          refine decide_eq_false fun hc => ?_
          subst hc
          have htrue : startsWith (templateOpen ++ ['/']) (templateOpen ++ '/' :: behind) = true :=
            rfl
          exact absurd (htrue.symm.trans hslash) Bool.noConfusion
      dsimp only at hopen ⊢
      rw [hopen, hnot]
      rfl

/-- No landmark stands in a text in which nothing starts, whatever follows the next bracket. -/
theorem isQuiet_of_isUnmarked (h : isUnmarked s) (rest : Text) :
    isQuiet s.length (s ++ '<' :: rest) := by
  induction s with
  | nil => rfl
  | cons c s ih =>
    rw [isUnmarked, Bool.and_eq_true, Bool.not_eq_true'] at h
    rw [List.length_cons, List.cons_append, isQuiet, Bool.and_eq_true, decide_eq_true_eq]
    refine ⟨landmark_of_startsMark ?_, ih h.2⟩
    rw [← List.cons_append, startsMark_append (List.cons_ne_nil c s)]
    exact h.1

/-- No landmark stands in a tag in which nothing starts, whatever follows the tag. -/
theorem isQuiet_of_tag (h : isUnmarked (s ++ ['>'])) (rest : Text) :
    isQuiet s.length (s ++ '>' :: rest) := by
  induction s with
  | nil => rfl
  | cons c s ih =>
    rw [List.cons_append, isUnmarked, Bool.and_eq_true, Bool.not_eq_true'] at h
    rw [List.length_cons, List.cons_append, isQuiet, Bool.and_eq_true, decide_eq_true_eq]
    refine ⟨landmark_of_startsMark ?_, ih h.2⟩
    rw [← List.cons_append, startsMark_tag (List.cons_ne_nil c s)]
    exact h.1

/-- Everything that starts does so with an angle bracket. -/
theorem startsMark_of_ne (hc : c ≠ '<') : startsMark (c :: t) = false := by
  have hafter : ∀ word, after? ('<' :: word) (c :: t) = none := fun word => if_neg (Ne.symm hc)
  have hcomment : after? commentStart (c :: t) = none := hafter _
  have hclose : after? templateClose (c :: t) = none := hafter _
  have hopen : after? templateOpen (c :: t) = none := hafter _
  have hslash : after? (templateOpen ++ ['/']) (c :: t) = none := hafter _
  rw [startsMark, startsWith, startsTag, startsTag, startsWith, hcomment, hclose, hopen, hslash]
  rfl

theorem isUnmarked_of_not_mem (hs : '<' ∉ s) (ht : isUnmarked t) : isUnmarked (s ++ t) := by
  induction s with
  | nil => exact ht
  | cons c s ih =>
    rw [List.mem_cons, not_or] at hs
    rw [List.cons_append, isUnmarked, startsMark_of_ne (Ne.symm hs.1), Bool.not_false,
      Bool.true_and]
    exact ih hs.2

end Marks

/-! ## Bodies of templates -/

section Bodies

variable {depth : Nat} {s rest body behind : Text}

/-- A text in which nothing starts belongs to the body. -/
theorem templateBody_text (hs : isUnmarked s) (hrest : headIs (· = '<') rest)
    (h : templateBody depth rest = some (body, behind)) :
    templateBody depth (s ++ rest) = some (s ++ body, behind) := by
  cases rest with
  | nil => cases hrest
  | cons c rest =>
    obtain rfl : c = '<' := of_decide_eq_true hrest
    exact templateBody_quiet (isQuiet_of_isUnmarked hs rest) h

/-- So does the rest of a tag in which nothing starts. -/
theorem templateBody_tag (hs : isUnmarked (s ++ ['>']))
    (h : templateBody depth rest = some (body, behind)) :
    templateBody depth (s ++ '>' :: rest) = some (s ++ '>' :: body, behind) :=
  templateBody_quiet (isQuiet_of_tag hs rest) (templateBody_other (landmark_of_ne (by decide)) h)

theorem Comment.exists_cons (c : Comment) : ∃ r, c.text = '<' :: r := by
  obtain ⟨behind, hbehind⟩ := Option.isSome_iff_exists.1 c.start
  exact ⟨_, after?_eq_some.1 hbehind⟩

/-- A comment is cut off at its end. -/
theorem Comment.exists_cut? (c : Comment) (rest : Text) :
    ∃ inner, cut? commentEnd (c.text ++ rest) = some (inner, rest) ∧
      inner ++ commentEnd = c.text := by
  obtain ⟨inner, hcut⟩ := c.stop
  refine ⟨inner, cut?_append_right (by decide) hcut rest, ?_⟩
  rw [eq_of_cut? hcut, List.append_nil]

theorem Comment.startsWith_append (c : Comment) (rest : Text) :
    startsWith commentStart (c.text ++ rest) := by
  obtain ⟨behind, hbehind⟩ := Option.isSome_iff_exists.1 c.start
  rw [after?_eq_some.1 hbehind, List.append_assoc, startsWith, after?_append]
  rfl

/-- So does a comment. -/
theorem templateBody_commentText (c : Comment)
    (h : templateBody depth rest = some (body, behind)) :
    templateBody depth (c.text ++ rest) = some (c.text ++ body, behind) := by
  obtain ⟨inner, hcut, hinner⟩ := c.exists_cut? rest
  have hmark : landmark (c.text ++ rest) = .comment c.text rest := by
    rw [landmark, if_pos (c.startsWith_append rest), hcut]
    exact congrArg (Landmark.comment · rest) hinner
  obtain ⟨r, hr⟩ := c.exists_cons
  rw [hr] at hmark ⊢
  exact templateBody_comment hmark h

theorem takeWhile_tag (hs : '>' ∉ s) (rest : Text) :
    (s ++ '>' :: rest).takeWhile (· ≠ '>') = s := by
  have hall : s.all (· ≠ '>') := by
    rw [List.all_eq_true]
    intro c hc
    exact decide_eq_true fun h => hs (h ▸ hc)
  exact takeWhile_run hall rfl

theorem headIs_tag (tag : TagText) {p : Char → Bool} (hp : ∀ c, isWhite c → p c)
    (hrest : headIs p rest) : headIs p (tag.text ++ rest) := by
  rcases tag.start with hnil | hwhite
  · rw [hnil]
    exact hrest
  · cases htext : tag.text with
    | nil => exact hrest
    | cons c t =>
      rw [htext] at hwhite
      exact hp c hwhite

theorem after?_templateClose_opening (t : Text) :
    after? templateClose (templateOpen ++ t) = none := rfl

/-- The opening tag of a nested template is one. -/
theorem landmark_nested (tag : TagText) (htag : endsWith ['/'] (trimEnd tag.text) = false)
    (rest : Text) : landmark (templateOpen ++ (tag.text ++ '>' :: rest)) = .opening := by
  have hends : endsName (tag.text ++ '>' :: rest) :=
    headIs_tag tag (fun c hc => by simp [hc]) rfl
  have hself : closesItself (tag.text ++ '>' :: rest) = false := by
    rw [closesItself, takeWhile_tag tag.open_end, htag]
  have hcomment : startsWith commentStart (templateOpen ++ (tag.text ++ '>' :: rest)) = false := rfl
  rw [landmark, hcomment, if_neg Bool.false_ne_true, after?_templateClose_opening, after?_append]
  dsimp only
  rw [hends, hself]
  rfl

/-- The opening tag of an empty template counts for nothing. -/
theorem landmark_empty (tag : TagText) (rest : Text) :
    landmark (templateOpen ++ (tag.text ++ '/' :: '>' :: rest)) = .other := by
  have hself : closesItself (tag.text ++ '/' :: '>' :: rest) = true := by
    have hmem : '>' ∉ tag.text ++ ['/'] := by
      rw [List.mem_append, List.mem_singleton]
      rintro (h | h)
      · exact tag.open_end h
      · cases h
    have hsplit : tag.text ++ '/' :: '>' :: rest = (tag.text ++ ['/']) ++ '>' :: rest := by
      rw [List.append_assoc]
      rfl
    have htrim : trimEnd (tag.text ++ ['/']) = tag.text ++ ['/'] := by
      have hslash : isWhite '/' = false := by decide
      rw [trimEnd, List.reverse_append, List.reverse_singleton, List.singleton_append,
        List.dropWhile_cons, hslash]
      simp
    rw [closesItself, hsplit, takeWhile_tag hmem, htrim, endsWith, List.reverse_append]
    rfl
  have hcomment : startsWith commentStart
      (templateOpen ++ (tag.text ++ '/' :: '>' :: rest)) = false := rfl
  rw [landmark, hcomment, if_neg Bool.false_ne_true, after?_templateClose_opening, after?_append]
  dsimp only
  rw [hself, Bool.not_true, Bool.and_false, if_neg Bool.false_ne_true]

theorem landmark_close (rest : Text) :
    landmark (templateClose ++ '>' :: rest) = .closing rest := by
  have hafter : afterClosing ('>' :: rest) = rest := rfl
  have hcomment : startsWith commentStart (templateClose ++ '>' :: rest) = false := rfl
  have hends : endsName ('>' :: rest) = true := rfl
  rw [landmark, hcomment, if_neg Bool.false_ne_true, after?_append]
  dsimp only
  rw [if_pos hends, hafter]

theorem templateOpen_eq : templateOpen = '<' :: "template".toList := rfl

theorem templateClose_eq : templateClose = '<' :: "/template".toList := rfl

theorem headIs_templateOpen (t : Text) : headIs (· = '<') (templateOpen ++ t) := rfl

theorem headIs_templateClose (t : Text) : headIs (· = '<') (templateClose ++ t) := rfl

/-- An empty template belongs to the body: it is read as text, from its bracket on. -/
theorem templateBody_emptyTag (tag : TagText) (hquiet : isUnmarked (tag.text ++ ['/', '>']))
    (h : templateBody depth rest = some (body, behind)) :
    templateBody depth (templateOpen ++ (tag.text ++ '/' :: '>' :: rest)) =
      some (templateOpen ++ (tag.text ++ '/' :: '>' :: body), behind) := by
  have hunmarked : isUnmarked ("template".toList ++ (tag.text ++ ['/', '>'])) :=
    isUnmarked_of_not_mem (by decide) hquiet
  have hinside : templateBody depth
      ("template".toList ++ (tag.text ++ '/' :: '>' :: rest)) =
        some ("template".toList ++ (tag.text ++ '/' :: '>' :: body), behind) := by
    have htag := templateBody_tag (s := "template".toList ++ (tag.text ++ ['/']))
      (by simpa using hunmarked) h
    simpa using htag
  have hmark := landmark_empty tag rest
  rw [templateOpen_eq, List.cons_append] at hmark ⊢
  exact templateBody_other hmark hinside

/-- A closing tag belongs to the body of an outer template, and takes one template from the
count. -/
theorem templateBody_closingTag (h : templateBody depth rest = some (body, behind)) :
    templateBody (depth + 1) (templateClose ++ '>' :: rest) =
      some (templateClose ++ '>' :: body, behind) := by
  have htail := templateBody_tag (s := "/template".toList) rfl h
  have hmark := landmark_close rest
  rw [templateClose_eq, List.cons_append] at hmark ⊢
  refine templateBody_closing ?_ htail
  rw [hmark]
  rfl

/-- An opening tag belongs to the body, and adds one template to the count. -/
theorem templateBody_openingTag (tag : TagText)
    (htag : endsWith ['/'] (trimEnd tag.text) = false) (hquiet : isUnmarked (tag.text ++ ['>']))
    (h : templateBody (depth + 1) rest = some (body, behind)) :
    templateBody depth (templateOpen ++ (tag.text ++ '>' :: rest)) =
      some (templateOpen ++ (tag.text ++ '>' :: body), behind) := by
  have hunmarked : isUnmarked ("template".toList ++ (tag.text ++ ['>'])) :=
    isUnmarked_of_not_mem (by decide) hquiet
  have hinside := templateBody_tag (s := "template".toList ++ tag.text)
    (by simpa using hunmarked) h
  have hmark := landmark_nested tag htag rest
  rw [templateOpen_eq, List.cons_append] at hmark ⊢
  rw [List.append_assoc] at hinside
  simpa only [List.append_assoc, List.cons_append] using templateBody_opening hmark hinside

/-- The body of a template is read up to its end, however many templates are open around it. -/
theorem templateBody_print (b : Body) (hb : b.isQuiet) (hrest : headIs (· = '<') rest)
    (h : templateBody depth rest = some (body, behind)) :
    templateBody depth (b.print ++ rest) = some (b.print ++ body, behind) := by
  induction b generalizing depth rest body with
  | last t ht => exact templateBody_text ht hrest h
  | comment t ht c more ih =>
    have hmore := templateBody_commentText c (ih hb hrest h)
    have hhead : headIs (· = '<') (c.text ++ (more.print ++ rest)) := by
      obtain ⟨r, hr⟩ := c.exists_cons
      rw [hr]
      rfl
    simpa only [Body.print, List.append_assoc] using templateBody_text ht hhead hmore
  | empty t ht tag more ih =>
    rw [Body.isQuiet, Bool.and_eq_true] at hb
    have htag := templateBody_emptyTag tag hb.1 (ih hb.2 hrest h)
    have hall := templateBody_text ht (headIs_templateOpen _) htag
    simpa only [Body.print, List.append_assoc, List.cons_append] using hall
  | nested t ht tag htag inner more ihinner ihmore =>
    rw [Body.isQuiet, Bool.and_eq_true, Bool.and_eq_true] at hb
    obtain ⟨⟨hquiet, hinner⟩, hmore⟩ := hb
    have hclose := templateBody_closingTag (ihmore hmore hrest h)
    have hbody := ihinner hinner (headIs_templateClose _) hclose
    have hopen := templateBody_openingTag tag htag hquiet hbody
    have hall := templateBody_text ht (headIs_templateOpen _) hopen
    simpa only [Body.print, List.append_assoc, List.cons_append] using hall

/-- The text of a template ends at the closing tag behind it. -/
theorem templateBody_closed (b : Body) (hb : b.isQuiet) (rest : Text) :
    templateBody 0 (b.print ++ (templateClose ++ '>' :: rest)) = some (b.print, rest) := by
  have hmark := landmark_close rest
  rw [templateClose_eq, List.cons_append] at hmark
  have hclose : templateBody 0 (templateClose ++ '>' :: rest) = some ([], rest) := by
    rw [templateClose_eq, List.cons_append, templateBody_cons, hmark]
  have hbody := templateBody_print b hb (headIs_templateClose _) hclose
  rwa [List.append_nil] at hbody

end Bodies

/-! ## Raw bodies -/

/-- A raw body ends at the first closing tag of its block. -/
theorem rawBody_print {word body : Text} (hword : '<' ∉ word)
    (hbody : isUnclosed ('<' :: word) body) (rest : Text) :
    rawBody ('<' :: word) (body ++ ('<' :: word ++ '>' :: rest)) = some (body, rest) := by
  have hafter : afterClosing ('>' :: rest) = rest := rfl
  induction body with
  | nil =>
    have hclose := after?_append ('<' :: word) ('>' :: rest)
    rw [List.nil_append, List.cons_append] at *
    rw [rawBody, hclose]
    dsimp only
    rw [hafter]
    rfl
  | cons c body ih =>
    rw [isUnclosed, Bool.and_eq_true, Bool.not_eq_true'] at hbody
    have hnot : startsTag ('<' :: word) (c :: body ++ ('<' :: word ++ '>' :: rest)) = false :=
      (startsTag_bracket (List.cons_ne_nil c body) hword (word ++ '>' :: rest)).trans hbody.1
    rw [startsTag] at hnot
    rw [List.cons_append, rawBody, ← List.cons_append]
    have hnext := ih hbody.2
    split
    · rename_i behind hbehind
      rw [hbehind] at hnot
      dsimp only at hnot
      rw [hnot, if_neg Bool.false_ne_true, hnext]
      rfl
    · rw [hnext]
      rfl

/-! ## Opening tags -/

section Opening

variable {tag t : Text} {found : Attributes}

theorem trimStart_idem (t : Text) : trimStart (trimStart t) = trimStart t := by
  obtain ⟨run, rest, rfl, hrun, hrest⟩ := exists_run isWhite t
  have htrim : trimStart (run ++ rest) = rest := dropWhile_run hrun hrest
  have hnone : ([] : Text).all isWhite := rfl
  have hrest' : trimStart rest = rest := dropWhile_run hnone hrest
  rw [htrim, hrest']

/-- White space before attributes is passed over. -/
theorem readAttributes_trimStart (tag : Text) (found : Attributes) (t : Text) :
    readAttributes tag found (trimStart t) = readAttributes tag found t := by
  rw [readAttributes.eq_def, readAttributes.eq_def tag found t, trimStart_idem]

/-- What can stand behind the attributes of a tag: white space and the end of the tag. -/
def EndsTag (selfClosing : Bool) (rest t : Text) : Prop :=
  trimStart t = tagEnd selfClosing ++ rest

theorem readAttributes_end {selfClosing : Bool} {rest : Text} (h : EndsTag selfClosing rest t) :
    readAttributes tag found t = .ok (found, selfClosing, rest) := by
  rw [readAttributes.eq_def]
  cases selfClosing with
  | true =>
    have h : trimStart t = '/' :: '>' :: rest := h
    split <;> simp_all
  | false =>
    have h : trimStart t = '>' :: rest := h
    split <;> simp_all

theorem isWhite_of_isAttributeChar {c : Char} (h : isAttributeChar c) :
    isWhite c = false ∧ c ≠ '/' ∧ c ≠ '>' ∧ c ≠ '=' := by
  simp only [isAttributeChar, Bool.not_eq_true', Bool.or_eq_false_iff,
    decide_eq_false_iff_not] at h
  exact ⟨h.1.1.1, h.2, h.1.2, h.1.1.2⟩

theorem isAttributeChar_of_isTagChar {c : Char} (h : isTagChar c) : isAttributeChar c := by
  rw [isAttributeChar, Bool.not_eq_true', Bool.or_eq_false_iff, Bool.or_eq_false_iff,
    Bool.or_eq_false_iff]
  have hne : ∀ d, isTagChar d = false → c ≠ d := by
    rintro d hd rfl
    exact absurd (h.symm.trans hd) Bool.noConfusion
  have hwhite : isWhite c = false := by
    refine Bool.eq_false_iff.2 fun hwhite => ?_
    have hnot : isTagChar c = false :=
      forall_white (P := fun c => isTagChar c = false) (by decide) hwhite
    exact absurd (h.symm.trans hnot) Bool.noConfusion
  exact ⟨⟨⟨hwhite, decide_eq_false (hne _ rfl)⟩, decide_eq_false (hne _ rfl)⟩,
    decide_eq_false (hne _ rfl)⟩

/-- The value of an attribute is read up to where its quotes end. -/
theorem readAssigned_printValue (a : Attribute) {rest : Text}
    (hrest : headIs (· = '=') (trimStart rest) = false) :
    ∃ behind, readAssigned (a.printValue ++ rest) = .ok (a.value.getD [], behind) ∧
      trimStart behind = trimStart rest := by
  cases hvalue : a.value with
  | none =>
    refine ⟨trimStart rest, ?_, trimStart_idem rest⟩
    rw [Attribute.printValue, hvalue, List.nil_append, readAssigned]
    split
    · rename_i r hr
      rw [hr] at hrest
      cases hrest
    · rfl
  | some value =>
    have hquote := a.value_quote value hvalue
    have hcut : cut? ['"'] (value ++ '"' :: rest) = some (value, rest) := cut?_append hquote rest
    refine ⟨rest, ?_, rfl⟩
    have hequals : trimStart ('=' :: '"' :: (value ++ ['"']) ++ rest) =
        '=' :: '"' :: (value ++ '"' :: rest) := by
      rw [List.cons_append, trimStart_cons (by decide)]
      simp
    have hstart : trimStart ('"' :: (value ++ '"' :: rest)) = '"' :: (value ++ '"' :: rest) :=
      trimStart_cons (by decide) _
    rw [Attribute.printValue, hvalue]
    show readAssigned ('=' :: '"' :: (value ++ ['"']) ++ rest) = _
    rw [readAssigned, hequals]
    show readValue (trimStart ('"' :: (value ++ '"' :: rest))) = _
    rw [hstart, readValue, if_pos (.inl rfl), hcut]
    rfl

/-- One attribute is read, and reading goes on behind it. -/
theorem readAttributes_attribute (a : Attribute) {rest : Text}
    (hrest : headIs isAttributeChar rest = false)
    (hequals : headIs (· = '=') (trimStart rest) = false) :
    readAttributes tag found (a.print ++ rest) =
      readAttributes tag (Table.set a.name (a.value.getD []) found) rest := by
  obtain ⟨hne, hname⟩ := a.name_char
  obtain ⟨c, name, hcons⟩ := List.exists_cons_of_ne_nil hne
  rw [hcons, List.all_cons, Bool.and_eq_true] at hname
  obtain ⟨hwhite, hslash, hend, -⟩ := isWhite_of_isAttributeChar hname.1
  have hstart : headIs isWhite (a.name ++ (a.printValue ++ rest)) = false := by
    rw [hcons]
    exact hwhite
  have htrim : trimStart (a.print ++ rest) = c :: (name ++ (a.printValue ++ rest)) := by
    rw [Attribute.print, List.append_assoc, List.append_assoc, trimStart,
      dropWhile_run a.gap_white.2 hstart, hcons]
    rfl
  -- the name ends where the value or what follows it starts
  have hbehind : headIs isAttributeChar (a.printValue ++ rest) = false := by
    rw [Attribute.printValue]
    cases a.value with
    | none => exact hrest
    | some value =>
      refine Bool.eq_false_iff.2 fun h => ?_
      exact (isWhite_of_isAttributeChar h).2.2.2 rfl
  obtain ⟨behind, hassigned, hsame⟩ := readAssigned_printValue a hequals
  rw [readAttributes.eq_def]
  split
  · simp_all
  · rename_i hs
    rw [htrim] at hs
    exact absurd (List.cons.inj hs).1 hslash
  · rename_i hs
    rw [htrim] at hs
    exact absurd (List.cons.inj hs).1 hend
  · rename_i d r _ _ hs
    rw [htrim] at hs
    obtain ⟨rfl, rfl⟩ := List.cons.inj hs
    rw [if_pos hname.1, dropWhile_run hname.2 hbehind, takeWhile_run hname.2 hbehind]
    split
    · rename_i hfault
      rw [hassigned] at hfault
      cases hfault
    · rename_i value rest' hok
      rw [hassigned] at hok
      cases hok
      rw [← hcons, ← readAttributes_trimStart _ _ behind, hsame, readAttributes_trimStart]

/-- Behind the attributes of a tag stand white space and the end of the tag. -/
theorem endsTag_gap {gap : Text} (hgap : gap.all isWhite) (selfClosing : Bool) (rest : Text) :
    EndsTag selfClosing rest (gap ++ (tagEnd selfClosing ++ rest)) := by
  refine dropWhile_run hgap ?_
  cases selfClosing with
  | true => exact (by decide : isWhite '/' = false)
  | false => exact (by decide : isWhite '>' = false)

/-- What ends a tag is no part of an attribute. -/
theorem headIs_endsTag {selfClosing : Bool} {rest : Text} (ht : EndsTag selfClosing rest t) :
    headIs isAttributeChar t = false ∧ headIs (· = '=') (trimStart t) = false := by
  rw [EndsTag] at ht
  constructor
  · refine Bool.eq_false_iff.2 fun h => ?_
    cases t with
    | nil => cases h
    | cons c t =>
      obtain ⟨hwhite, hslash, hend, -⟩ := isWhite_of_isAttributeChar h
      have hself : trimStart (c :: t) = c :: t := trimStart_cons hwhite t
      rw [hself] at ht
      cases selfClosing with
      | true => exact hslash (List.cons.inj ht).1
      | false => exact hend (List.cons.inj ht).1
  · rw [ht]
    cases selfClosing <;> rfl

/-- Nor is an attribute a part of the one before it: white space and its name come first. -/
theorem headIs_attribute (a : Attribute) (t : Text) :
    headIs isAttributeChar (a.print ++ t) = false ∧
      headIs (· = '=') (trimStart (a.print ++ t)) = false := by
  obtain ⟨hne, hgap⟩ := a.gap_white
  obtain ⟨hname, hchar⟩ := a.name_char
  constructor
  · obtain ⟨c, gap, hcons⟩ := List.exists_cons_of_ne_nil hne
    rw [hcons, List.all_cons, Bool.and_eq_true] at hgap
    rw [Attribute.print, hcons]
    refine Bool.eq_false_iff.2 fun h => ?_
    exact absurd (hgap.1.symm.trans (isWhite_of_isAttributeChar h).1) Bool.noConfusion
  · obtain ⟨d, name, hd⟩ := List.exists_cons_of_ne_nil hname
    rw [hd, List.all_cons, Bool.and_eq_true] at hchar
    obtain ⟨hwhite, -, -, hequals⟩ := isWhite_of_isAttributeChar hchar.1
    have hstart : headIs isWhite (d :: (name ++ (a.printValue ++ t))) = false := hwhite
    have hshape : a.print ++ t = a.gap ++ d :: (name ++ (a.printValue ++ t)) := by
      rw [Attribute.print, hd]
      simp
    rw [hshape, trimStart, dropWhile_run hgap hstart]
    exact decide_eq_false hequals

/-- What can stand behind an attribute starts with white space or ends the tag. -/
theorem headIs_attributes {selfClosing : Bool} {rest : Text} (attributes : List Attribute)
    (ht : EndsTag selfClosing rest t) :
    headIs isAttributeChar (attributes.flatMap Attribute.print ++ t) = false ∧
      headIs (· = '=') (trimStart (attributes.flatMap Attribute.print ++ t)) = false := by
  cases attributes with
  | nil => exact headIs_endsTag ht
  | cons a attributes =>
    rw [List.flatMap_cons, List.append_assoc]
    exact headIs_attribute a _

/-- Attributes are read up to the end of their tag. -/
theorem readAttributes_print {selfClosing : Bool} {rest : Text} (attributes : List Attribute)
    (ht : EndsTag selfClosing rest t) :
    readAttributes tag found (attributes.flatMap Attribute.print ++ t) =
      .ok (attributes.foldl (fun found a => Table.set a.name (a.value.getD []) found) found,
        selfClosing, rest) := by
  induction attributes generalizing found with
  | nil => exact readAttributes_end ht
  | cons a attributes ih =>
    obtain ⟨hchar, hequals⟩ := headIs_attributes attributes ht
    rw [List.flatMap_cons, List.append_assoc, readAttributes_attribute a hchar hequals, ih]
    rfl

/-- An opening tag is read up to its end. -/
theorem readTag_print (o : Opening) (selfClosing : Bool) (rest : Text) :
    readTag (o.print ++ (tagEnd selfClosing ++ rest)) =
      .ok (⟨o.name, collect o.attributes, selfClosing⟩, rest) := by
  have hend := endsTag_gap o.gap_white selfClosing rest
  have hattributes : readAttributes o.name [] (o.attributes.flatMap Attribute.print ++ _) = _ :=
    readAttributes_print o.attributes hend
  have hshape : o.print ++ (tagEnd selfClosing ++ rest) =
      o.name ++ (o.attributes.flatMap Attribute.print ++
        (o.gap ++ (tagEnd selfClosing ++ rest))) := by
    rw [Opening.print]
    simp
  -- the name ends at white space or at the end of the tag
  have hname : headIs isTagChar (o.attributes.flatMap Attribute.print ++
      (o.gap ++ (tagEnd selfClosing ++ rest))) = false := by
    refine Bool.eq_false_iff.2 fun h => ?_
    have hnot := (headIs_attributes o.attributes hend).1
    generalize o.attributes.flatMap Attribute.print ++
      (o.gap ++ (tagEnd selfClosing ++ rest)) = behind at h hnot
    cases behind with
    | nil => cases h
    | cons c behind =>
      exact absurd ((isAttributeChar_of_isTagChar h).symm.trans hnot) Bool.noConfusion
  rw [readTag, hshape, takeWhile_run o.name_char.1 hname, dropWhile_run o.name_char.1 hname,
    o.name_char.2]
  dsimp only
  rw [hattributes]
  rfl

end Opening

/-! ## Sections -/

section Sections

variable {size : Nat} {found : Component} {rest : Text}

/-- A text in which no tag starts is passed over. -/
theorem scan_text {t : Text} (ht : '<' ∉ t) :
    scan size found (t ++ rest) = scan size found rest := by
  induction t with
  | nil => rfl
  | cons c t ih =>
    rw [List.mem_cons, not_or] at ht
    rw [List.cons_append, scan, if_pos (Ne.symm ht.1)]
    exact ih ht.2

/-- So is a comment. -/
theorem scan_comment (c : Comment) : scan size found (c.text ++ rest) = scan size found rest := by
  obtain ⟨inner, hcut, -⟩ := c.exists_cut? rest
  have hstart := c.startsWith_append rest
  obtain ⟨r, hr⟩ := c.exists_cons
  rw [hr, List.cons_append] at hcut hstart ⊢
  rw [scan.eq_def]
  dsimp only
  rw [if_neg (by simp), if_pos hstart]
  split
  · rename_i hok
    rw [hcut] at hok
    cases hok
    rfl
  · rename_i hnone
    rw [hcut] at hnone
    cases hnone

/-- A block is read as what it is, if its text ends where it was printed to end. -/
theorem scan_opening (o : Opening) (selfClosing : Bool) {inside body : Text}
    (hbody : blockBody ⟨o.name, collect o.attributes, selfClosing⟩ inside = some (body, rest))
    {t : Text} (ht : t = '<' :: (o.print ++ (tagEnd selfClosing ++ inside)))
    (hsize : byteSize t ≤ size) :
    scan size found t =
      let p := o.placed (size - byteSize t) (size - byteSize rest) selfClosing body
      found.add p.name p.block p.whole >>= fun next => scan size next rest := by
  obtain ⟨c, r, hr, halpha⟩ : ∃ c r, o.print = c :: r ∧ Char.isAlpha c := by
    have halpha := o.name_alpha
    rw [Opening.print]
    cases hname : o.name with
    | nil =>
      rw [hname] at halpha
      cases halpha
    | cons c name =>
      rw [hname] at halpha
      exact ⟨c, _, rfl, halpha⟩
  have hcomment : startsWith commentStart ('<' :: (o.print ++ (tagEnd selfClosing ++ inside))) =
      false := by
    have hne : ¬ '!' = c := by
      rintro rfl
      exact absurd halpha (by decide)
    rw [hr, startsWith, commentStart, List.cons_append, after?, if_pos rfl, after?, if_neg hne]
    rfl
  have hhead : headIs Char.isAlpha (o.print ++ (tagEnd selfClosing ++ inside)) := by
    rw [hr]
    exact halpha
  -- the text starts behind the tag
  have hstart : size - byteSize inside =
      size - byteSize t + byteSize ('<' :: (o.print ++ tagEnd selfClosing)) := by
    rw [ht] at hsize ⊢
    simp only [byteSize_cons, byteSize_append] at hsize ⊢
    omega
  rw [ht, scan_block hcomment hhead (readTag_print o selfClosing inside), hbody, ← ht]
  simp only [Opening.placed, hstart]
  cases found.add o.name _ _ <;> rfl

/-- A section is read as what it is, and reading goes on behind it. -/
theorem scan_section (s : Section) (hs : s.isQuiet) (hsize : byteSize (s.print ++ rest) ≤ size) :
    scan size found (s.print ++ rest) =
      (s.placed? (size - byteSize (s.print ++ rest))).toList.foldlM
        (fun c p => Component.add c p.name p.block p.whole) found >>= fun next =>
          scan size next rest := by
  -- a block ends where the rest starts
  have hstop : size - byteSize rest = size - byteSize (s.print ++ rest) + byteSize s.print := by
    rw [byteSize_append] at hsize ⊢
    omega
  have hfold : ∀ p : Placed, [p].foldlM (fun c p => Component.add c p.name p.block p.whole) found =
      found.add p.name p.block p.whole := by
    intro p
    rw [List.foldlM_cons]
    cases found.add p.name p.block p.whole <;> rfl
  cases s with
  | text t ht => exact scan_text ht
  | comment c => exact scan_comment c
  | empty o =>
    have hbody : blockBody ⟨o.name, collect o.attributes, true⟩ rest = some ([], rest) := rfl
    rw [scan_opening o true hbody (by simp [Section.print]) hsize,
      Section.placed?, Option.toList_some, hfold, hstop]
  | raw o body hname hbody =>
    have hclosed : blockBody ⟨o.name, collect o.attributes, false⟩
        (body ++ closingTag o.name ++ rest) = some (body, rest) := by
      have hbracket : '<' ∉ '/' :: o.name := by
        rw [List.mem_cons, not_or]
        refine ⟨by decide, fun hmem => ?_⟩
        exact absurd (List.all_eq_true.1 o.name_char.1 _ hmem) (by decide)
      have hraw := rawBody_print hbracket hbody rest
      rw [blockBody, if_neg Bool.false_ne_true, if_neg hname]
      simpa [closingTag] using hraw
    rw [scan_opening o false hclosed (by simp [Section.print]) hsize, Section.placed?,
      Option.toList_some, hfold, hstop]
  | template o body hname =>
    have hclosed : blockBody ⟨o.name, collect o.attributes, false⟩
        (body.print ++ closingTag o.name ++ rest) = some (body.print, rest) := by
      have htemplate := templateBody_closed body hs rest
      rw [blockBody, if_neg Bool.false_ne_true, if_pos hname, closingTag, hname]
      simpa [templateClose_eq] using htemplate
    rw [scan_opening o false hclosed (by simp [Section.print]) hsize, Section.placed?,
      Option.toList_some, hfold, hstop]

/-- A file is read as its blocks, in order. -/
theorem scan_printAll (sections : List Section) (hquiet : ∀ s ∈ sections, s.isQuiet)
    (hsize : byteSize (printAll sections) ≤ size) :
    scan size found (printAll sections) =
      (placed (size - byteSize (printAll sections)) sections).foldlM
        (fun c p => Component.add c p.name p.block p.whole) found := by
  induction sections generalizing found with
  | nil =>
    rw [printAll, List.flatMap_nil, scan]
    rfl
  | cons s sections ih =>
    obtain ⟨hs, hsections⟩ := List.forall_mem_cons.1 hquiet
    have hcons : printAll (s :: sections) = s.print ++ printAll sections := rfl
    rw [hcons] at hsize ⊢
    have hrest : byteSize (printAll sections) ≤ size := by
      rw [byteSize_append] at hsize
      omega
    have hstart : size - byteSize (printAll sections) =
        size - byteSize (s.print ++ printAll sections) + byteSize s.print := by
      rw [byteSize_append] at hsize ⊢
      omega
    rw [scan_section s hs hsize, placed, List.foldlM_append, ← hstart]
    exact bind_congr fun next => ih hsections hrest

end Sections

/-! ## The whole file -/

/-- The block of a kind. -/
def block? (c : Component) : Role → Option Block
  | .template => c.template
  | .script => c.script
  | .setup => c.setup

/-- A block that is the first of its kind is placed, and the other kinds stay as they are. -/
theorem add_of_first {c : Component} {p : Placed}
    (h : ∀ role, p.role? = some role → c.block? role = none) :
    ∃ next, c.add p.name p.block p.whole = .ok next ∧ ∀ role,
      next.block? role = if p.role? = some role then some p.block else c.block? role := by
  rw [Placed.role?] at h ⊢
  rw [add]
  by_cases htemplate : p.name = "template".toList
  · rw [if_pos htemplate] at h ⊢
    have hnone : c.template = none := h .template rfl
    rw [if_pos htemplate, hnone]
    refine ⟨{ c with template := some p.block }, rfl, fun role => ?_⟩
    cases role <;> rfl
  rw [if_neg htemplate] at h ⊢
  rw [if_neg htemplate]
  by_cases hscript : p.name = "script".toList
  · rw [if_pos hscript] at h ⊢
    rw [if_pos hscript]
    by_cases hsetup : (p.block.attribute? "setup".toList).isSome
    · rw [if_pos hsetup] at h ⊢
      have hnone : c.setup = none := h .setup rfl
      rw [if_pos hsetup, hnone]
      refine ⟨{ c with setup := some p.block }, rfl, fun role => ?_⟩
      cases role <;> rfl
    · rw [if_neg hsetup] at h ⊢
      have hnone : c.script = none := h .script rfl
      rw [if_neg hsetup, hnone]
      refine ⟨{ c with script := some p.block }, rfl, fun role => ?_⟩
      cases role <;> rfl
  · rw [if_neg hscript] at h ⊢
    rw [if_neg hscript]
    exact ⟨c, rfl, fun role => rfl⟩

/-- How many blocks there are of a kind. -/
def countOf (role : Role) (blocks : List Placed) : Nat :=
  blocks.countP fun p => p.role? = some role

/-- Blocks are all placed if there is at most one of each kind. -/
theorem foldlM_add {blocks : List Placed} {c : Component}
    (h : ∀ role, countOf role blocks + (if (c.block? role).isSome then 1 else 0) ≤ 1) :
    ∃ last, blocks.foldlM (fun c p => Component.add c p.name p.block p.whole) c = .ok last ∧
      ∀ role, last.block? role = (c.block? role).or (firstOf role blocks) := by
  induction blocks generalizing c with
  | nil => exact ⟨c, rfl, fun role => (Option.or_none).symm⟩
  | cons p blocks ih =>
    have hcount : ∀ role, countOf role (p :: blocks) =
        countOf role blocks + if p.role? = some role then 1 else 0 := by
      intro role
      rw [countOf, countOf, List.countP_cons]
      simp
    have hfirst : ∀ role, p.role? = some role → c.block? role = none := by
      intro role hrole
      have hone := h role
      rw [hcount, if_pos hrole] at hone
      cases hblock : c.block? role with
      | none => rfl
      | some block =>
        rw [hblock, Option.isSome_some, if_pos rfl] at hone
        omega
    obtain ⟨next, hnext, hblocks⟩ := add_of_first hfirst
    obtain ⟨last, hlast, hall⟩ := ih (c := next) fun role => by
      have hone := h role
      rw [hcount] at hone
      rw [hblocks]
      by_cases hrole : p.role? = some role
      · rw [if_pos hrole] at hone ⊢
        rw [Option.isSome_some, if_pos rfl]
        omega
      · rw [if_neg hrole] at hone ⊢
        omega
    refine ⟨last, ?_, fun role => ?_⟩
    · rw [List.foldlM_cons, hnext]
      exact hlast
    · rw [hall, hblocks, firstOf, firstOf, List.find?_cons]
      by_cases hrole : p.role? = some role
      · rw [if_pos hrole, hfirst role hrole, decide_eq_true hrole]
        rfl
      · rw [if_neg hrole, decide_eq_false hrole]

/-- Of several values of one name, the last is kept. -/
theorem get?_collect (attributes : List Attribute) (name : Text) :
    (collect attributes).get? name =
      (attributes.reverse.find? fun a => a.name = name).map fun a => a.value.getD [] := by
  have hfold : ∀ found : Attributes,
      (attributes.foldl (fun found a => Table.set a.name (a.value.getD []) found) found).get? name =
        ((attributes.reverse.find? fun a => a.name = name).map fun a => a.value.getD []).or
          (found.get? name) := by
    induction attributes with
    | nil => exact fun found => rfl
    | cons a attributes ih =>
      intro found
      rw [List.foldl_cons, ih, Table.get?_set, List.reverse_cons, List.find?_append]
      cases attributes.reverse.find? fun a => a.name = name with
      | some b => rfl
      | none =>
        by_cases hname : a.name = name
        · simp [hname]
        · simp [hname, Ne.symm hname]
  rw [collect, hfold]
  exact Option.or_none

/-- Reading undoes printing: if there is at most one block of each kind, a file is read as these
blocks, with their texts, their attributes and their places. Of several attributes of one name the
last value is kept. -/
theorem parse_written (sections : List Section) (hquiet : ∀ s ∈ sections, s.isQuiet)
    (hone : ∀ role, countOf role (placed 0 sections) ≤ 1) :
    parse (printAll sections) = .ok (ofPlaced (placed 0 sections)) ∧
      ∀ attributes name, (collect attributes).get? name =
        (attributes.reverse.find? fun a => a.name = name).map fun a => a.value.getD [] := by
  refine ⟨?_, get?_collect⟩
  have hscan : scan _ empty (printAll sections) = _ :=
    scan_printAll sections hquiet (Nat.le_refl _)
  rw [Nat.sub_self] at hscan
  have hroles : ∀ role, countOf role (placed 0 sections) +
      (if (empty.block? role).isSome then 1 else 0) ≤ 1 := by
    intro role
    have hnone : empty.block? role = none := by cases role <;> rfl
    rw [hnone]
    exact hone role
  obtain ⟨last, hlast, hblocks⟩ := foldlM_add hroles
  rw [parse, hscan, hlast]
  -- a component is its three blocks
  have htemplate := hblocks .template
  have hscript := hblocks .script
  have hsetup := hblocks .setup
  obtain ⟨template, script, setup⟩ := last
  simp only [block?, empty, Option.none_or] at htemplate hscript hsetup
  rw [htemplate, hscript, hsetup]
  rfl

/-- A file with a text, a comment, a script with two languages, a template in which others are
nested, a setup script and a block of another name. -/
def mixedFile : List Section :=
  let lang (language : Text) (h : '"' ∉ language) : Attribute :=
    ⟨[' '], "lang".toList, some language, by decide, by decide, by simpa using h⟩
  let setup : Attribute := ⟨['\n'], "setup".toList, none, by decide, by decide, nofun⟩
  let nested : Body := .nested "a < b ".toList (by decide)
    ⟨" v-if=\"c\"".toList, by decide, by decide⟩ (by decide)
    (.empty [] rfl ⟨" #d ".toList, by decide, by decide⟩ (.last "</templates>".toList (by decide)))
    (.comment [] rfl ⟨"<!--</template>-->".toList, by decide, "<!--</template>".toList, by decide⟩
      (.last "e".toList (by decide)))
  [.text "f\n".toList (by decide),
    .comment ⟨"<!-- <script> -->".toList, by decide, "<!-- <script> ".toList, by decide⟩,
    .raw ⟨"script".toList, [lang "js".toList (by decide), lang "ts".toList (by decide)], " ".toList,
      by decide, by decide, by decide⟩ "g </scripts> h".toList (by decide) (by decide),
    .template ⟨"template".toList, [], [], by decide, by decide, by decide⟩ nested rfl,
    .raw ⟨"script".toList, [setup], [], by decide, by decide, by decide⟩ "i".toList (by decide)
      (by decide),
    .empty ⟨"i18n".toList, [lang [] (by decide)], [], by decide, by decide, by decide⟩]

theorem parse_written_mixedFile :
    printAll mixedFile = ("f\n<!-- <script> --><script lang=\"js\" lang=\"ts\" >g </scripts> h" ++
      "</script><template>a < b <template v-if=\"c\"><template #d /></templates></template>" ++
      "<!--</template>-->e</template><script\nsetup>i</script><i18n lang=\"\"/>").toList ∧
    (∀ s ∈ mixedFile, s.isQuiet) ∧ (∀ role, countOf role (placed 0 mixedFile) ≤ 1) ∧
      parse (printAll mixedFile) = .ok (ofPlaced (placed 0 mixedFile)) := by
  have hquiet : ∀ s ∈ mixedFile, s.isQuiet := by decide
  have hone : ∀ role, countOf role (placed 0 mixedFile) ≤ 1 := by
    intro role
    cases role <;> decide
  exact ⟨by decide +kernel, hquiet, hone, (parse_written mixedFile hquiet hone).1⟩

/-- What looks like a template tag counts as one, also in quotes. -/
example : parse "<template><template x=\"<template \">y</template></template>".toList =
    .error ⟨.missingEndTag "template".toList, ⟨0, 58⟩⟩ := by
  decide +kernel

end ModuleServer.Component
