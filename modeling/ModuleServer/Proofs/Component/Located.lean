import ModuleServer.Proofs.Component.Enclosed
import ModuleServer.Proofs.Text.Offset
import Mathlib.Tactic.Tauto

/-!
# Places in a component file

Every reader of a component file leaves the end of what it reads. So whatever is wrong with a file
lies in it (`isIn_of_parse`), and the text of every block stands in
the file where its span says (`standsIn_of_parse`).
-/

namespace ModuleServer.Component

open Text

/-! ## What readers leave -/

section Suffix

variable {t rest : Text}

theorem trimStart_suffix (t : Text) : trimStart t <:+ t :=
  List.dropWhile_suffix _

theorem readValue_suffix {value : Text} (h : readValue t = .ok (value, rest)) : rest <:+ t := by
  rw [readValue.eq_def] at h
  split at h
  · cases h
    exact List.suffix_rfl
  split at h
  · split at h
    · rename_i hcut
      cases h
      exact (Template.suffix_of_cut? hcut).trans (List.suffix_cons _ _)
    · cases h
  · cases h
    exact List.dropWhile_suffix _

theorem readAssigned_suffix {value : Text} (h : readAssigned t = .ok (value, rest)) :
    rest <:+ t := by
  have htrim := trimStart_suffix t
  rw [readAssigned] at h
  split at h
  · rename_i r hr
    rw [hr] at htrim
    have hr' := (trimStart_suffix r).trans ((List.suffix_cons _ _).trans htrim)
    exact (readValue_suffix h).trans hr'
  · cases h
    exact htrim

theorem readAttributes_suffix {tag : Text} {found attributes : Attributes} {selfClosing : Bool}
    (h : readAttributes tag found t = .ok (attributes, selfClosing, rest)) : rest <:+ t := by
  fun_induction readAttributes tag found t with
  | case1 => cases h
  | case2 found t r hs =>
    have htrim := trimStart_suffix t
    cases h
    rw [hs] at htrim
    exact ((List.suffix_cons _ _).trans (List.suffix_cons _ _)).trans htrim
  | case3 found t r hs =>
    have htrim := trimStart_suffix t
    cases h
    rw [hs] at htrim
    exact (List.suffix_cons _ _).trans htrim
  | case4 => cases h
  | case5 found t c r _ _ hs _ value behind hr ih =>
    have htrim := trimStart_suffix t
    have hname : r.dropWhile isAttributeChar <:+ r := List.dropWhile_suffix _
    rw [hs] at htrim
    exact (((ih h).trans (readAssigned_suffix hr)).trans hname).trans
      ((List.suffix_cons _ _).trans htrim)
  | case6 found t c r _ _ hs _ ih =>
    have htrim := trimStart_suffix t
    rw [hs] at htrim
    exact (ih h).trans ((List.suffix_cons _ _).trans htrim)

theorem readTag_suffix {tag : OpenTag} (h : readTag t = .ok (tag, rest)) : rest <:+ t := by
  rw [readTag] at h
  cases hattributes : readAttributes (lower (t.takeWhile isTagChar)) []
      (t.dropWhile isTagChar) with
  | error fault =>
    rw [hattributes] at h
    cases h
  | ok found =>
    rw [hattributes] at h
    cases h
    exact (readAttributes_suffix hattributes).trans (List.dropWhile_suffix _)

theorem afterClosing_suffix (t : Text) : afterClosing t <:+ t := by
  rw [afterClosing]
  split
  · rename_i hcut
    exact Template.suffix_of_cut? hcut
  · exact List.nil_suffix

theorem closing_suffix (h : landmark t = .closing rest) : rest <:+ t := by
  rw [landmark] at h
  split at h
  · split at h <;> cases h
  split at h
  · rename_i behind hbehind
    split at h
    · cases h
      rw [after?_eq_some.1 hbehind]
      exact (afterClosing_suffix behind).trans (List.suffix_append _ _)
    · cases h
  · split at h <;> cases h
  · cases h

theorem templateBody_suffix {depth : Nat} {body : Text}
    (h : templateBody depth t = some (body, rest)) : ∃ tail, t = body ++ tail ∧ rest <:+ tail := by
  obtain ⟨tail, htail, hclosing⟩ := templateBody_split h
  exact ⟨tail, htail, closing_suffix hclosing⟩

theorem rawBody_suffix {closing body : Text} (h : rawBody closing t = some (body, rest)) :
    ∃ tail, t = body ++ tail ∧ rest <:+ tail := by
  induction t generalizing body with
  | nil => cases h
  | cons c t ih =>
    -- the body goes on with `c` unless a closing tag stands here
    have hnext : (rawBody closing t).map (fun found => (c :: found.1, found.2)) =
        some (body, rest) → ∃ tail, c :: t = body ++ tail ∧ rest <:+ tail := by
      intro hnext
      obtain ⟨⟨inner, behind⟩, hinner, heq⟩ := Option.map_eq_some_iff.1 hnext
      cases heq
      obtain ⟨tail, htail, hrest⟩ := ih hinner
      exact ⟨tail, congrArg (c :: ·) htail, hrest⟩
    rw [rawBody] at h
    split at h
    · rename_i behind hbehind
      split at h
      · cases h
        refine ⟨c :: t, rfl, ?_⟩
        rw [after?_eq_some.1 hbehind]
        exact (afterClosing_suffix behind).trans (List.suffix_append _ _)
      · exact hnext h
    · exact hnext h

/-- The text of a block comes first, and what is left stands behind it. -/
theorem blockBody_suffix {tag : OpenTag} {body : Text} (h : blockBody tag t = some (body, rest)) :
    ∃ tail, t = body ++ tail ∧ rest <:+ tail := by
  rw [blockBody] at h
  split at h
  · cases h
    exact ⟨t, rfl, List.suffix_rfl⟩
  split at h
  · exact templateBody_suffix h
  · exact rawBody_suffix h

end Suffix

/-! ## The whole file -/

/-- The blocks that a file holds. -/
def blocks (c : Component) : List Block :=
  c.template.toList ++ c.script.toList ++ c.setup.toList

/-- Whether the text of a block stands in a file where its span says. -/
def StandsIn (source : Text) (block : Block) : Prop :=
  ∃ before behind, source = before ++ block.content ++ behind ∧
    block.span = ⟨byteSize before, byteSize before + byteSize block.content⟩

section Add

variable {found next : Component} {name : Text} {block : Block} {whole : Span}

theorem mem_blocks_of_add (h : found.add name block whole = .ok next) {other : Block}
    (hother : other ∈ next.blocks) : other ∈ found.blocks ∨ other = block := by
  rw [add] at h
  split at h
  · split at h
    · cases h
    · cases h
      simp only [blocks, Option.toList_some, List.mem_append, List.mem_singleton] at hother ⊢
      tauto
  split at h
  · split at h
    · split at h
      · cases h
      · cases h
        simp only [blocks, Option.toList_some, List.mem_append, List.mem_singleton] at hother ⊢
        tauto
    · split at h
      · cases h
      · cases h
        simp only [blocks, Option.toList_some, List.mem_append, List.mem_singleton] at hother ⊢
        tauto
  · cases h
    exact .inl hother

/-- A second block is reported where it stands. -/
theorem span_of_add {e : Error} (h : found.add name block whole = .error e) : e.span = whole := by
  rw [add] at h
  split at h
  · split at h <;> cases h
    rfl
  split at h
  · split at h
    · split at h <;> cases h
      rfl
    · split at h <;> cases h
      rfl
  · cases h

end Add

section Scan

variable {source : Text}

theorem isIn_of_scan {found : Component} {t : Text} {e : Error}
    (h : scan (byteSize source) found t = .error e) (ht : t <:+ source) :
    e.span.IsIn source := by
  -- most of what is wrong lies between here and the end of the file
  have hhere : ∀ {c : Char} {r : Text}, c :: r <:+ source →
      Span.IsIn source ⟨byteSize source - byteSize (c :: r), byteSize source⟩ :=
    fun h => Span.isIn_of_isOffset (isOffset_of_suffix h)
  fun_induction scan (byteSize source) found t with
  | case1 => cases h
  | case2 found c r _ ih => exact ih h ((List.suffix_cons c r).trans ht)
  | case3 found c r _ _ comment rest hcut ih =>
    exact ih h ((Template.suffix_of_cut? hcut).trans ht)
  | case4 found c r start =>
    cases h
    exact hhere ht
  | case5 found c r start =>
    cases h
    exact hhere ht
  | case6 found c r start =>
    cases h
    exact hhere ht
  | case7 found c r start _ _ _ tag inside htag body rest hbody bodyStart block error hadd =>
    obtain ⟨tail, rfl, hrest⟩ := blockBody_suffix hbody
    have hinside := (readTag_suffix htag).trans (List.suffix_cons c r)
    cases h
    rw [span_of_add hadd]
    exact Span.isIn_of_suffix ht ((hrest.trans (List.suffix_append _ _)).trans hinside)
  | case8 found c r start _ _ _ tag inside htag body rest hbody bodyStart block next hadd ih =>
    obtain ⟨tail, rfl, hrest⟩ := blockBody_suffix hbody
    have hinside := (readTag_suffix htag).trans (List.suffix_cons c r)
    exact ih h (((hrest.trans (List.suffix_append _ _)).trans hinside).trans ht)
  | case9 found c r _ _ _ ih => exact ih h ((List.suffix_cons c r).trans ht)

theorem standsIn_of_scan {found last : Component} {t : Text}
    (h : scan (byteSize source) found t = .ok last) (ht : t <:+ source)
    (hfound : ∀ block ∈ found.blocks, StandsIn source block) :
    ∀ block ∈ last.blocks, StandsIn source block := by
  fun_induction scan (byteSize source) found t with
  | case1 =>
    cases h
    exact hfound
  | case2 found c r _ ih => exact ih h ((List.suffix_cons c r).trans ht) hfound
  | case3 found c r _ _ comment rest hcut ih =>
    exact ih h ((Template.suffix_of_cut? hcut).trans ht) hfound
  | case4 => cases h
  | case5 => cases h
  | case6 => cases h
  | case7 => cases h
  | case8 found c r start _ _ _ tag inside htag body rest hbody bodyStart block next hadd ih =>
    obtain ⟨tail, rfl, hrest⟩ := blockBody_suffix hbody
    have hinside := ((readTag_suffix htag).trans (List.suffix_cons c r)).trans ht
    refine ih h ((hrest.trans (List.suffix_append _ _)).trans hinside) fun other hother => ?_
    rcases mem_blocks_of_add hadd hother with hother | rfl
    · exact hfound other hother
    · -- the block stands behind its opening tag
      obtain ⟨before, hbefore⟩ := hinside
      have hstart : byteSize source - byteSize (body ++ tail) = byteSize before := by
        rw [← hbefore, byteSize_append]
        omega
      refine ⟨before, tail, ?_, ?_⟩
      · rw [← hbefore, List.append_assoc]
      · show (⟨byteSize source - byteSize (body ++ tail),
          byteSize source - byteSize (body ++ tail) + byteSize body⟩ : Span) = _
        rw [hstart]
  | case9 found c r _ _ _ ih => exact ih h ((List.suffix_cons c r).trans ht) hfound

/-- What is wrong with a file lies in it. -/
theorem isIn_of_parse {e : Error} (h : parse source = .error e) : e.span.IsIn source :=
  isIn_of_scan h List.suffix_rfl

/-- The text of every block stands in the file where its span says. -/
theorem standsIn_of_parse {c : Component} (h : parse source = .ok c) :
    ∀ block ∈ c.blocks, StandsIn source block :=
  standsIn_of_scan h List.suffix_rfl (by simp [blocks, empty])

end Scan

end ModuleServer.Component
