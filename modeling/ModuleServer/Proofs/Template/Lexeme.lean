import ModuleServer.Template.Token

/-!
# Where lexemes end

A lexeme leaves the end of the text it is read from (`lexeme_suffix`), so markup is cut into its
lexemes. A run of text ends before the first place where something else starts (`readRun_eq`).
-/

namespace ModuleServer.Template

open Text

theorem suffix_of_cut? {word t before rest : Text} (h : cut? word t = some (before, rest)) :
    rest <:+ t := by
  rw [eq_of_cut? h]
  exact List.suffix_append _ _

theorem readValue?_suffix {t value rest : Text} (h : readValue? t = some (value, rest)) :
    rest <:+ t := by
  unfold readValue? at h
  split at h
  · obtain ⟨-, rfl⟩ := Prod.mk.inj (Option.some.inj h)
    exact List.suffix_rfl
  · split at h
    · exact (suffix_of_cut? h).trans (List.suffix_cons _ _)
    · obtain ⟨-, rfl⟩ := Prod.mk.inj (Option.some.inj h)
      exact List.dropWhile_suffix _

theorem readAssignment?_suffix {t rest : Text} {value : Option Text}
    (h : readAssignment? t = some (value, rest)) : rest <:+ t := by
  have htrim : trimStart t <:+ t := List.dropWhile_suffix _
  unfold readAssignment? at h
  split at h
  · rename_i s hs
    obtain ⟨⟨written, behind⟩, hvalue, heq⟩ := Option.map_eq_some_iff.1 h
    obtain ⟨-, rfl⟩ := Prod.mk.inj heq
    have hs' : trimStart s <:+ s := List.dropWhile_suffix _
    rw [hs] at htrim
    exact ((readValue?_suffix hvalue).trans hs').trans ((List.suffix_cons _ _).trans htrim)
  · obtain ⟨-, rfl⟩ := Prod.mk.inj (Option.some.inj h)
    exact htrim

theorem readItems_suffix {size start : Nat} {name t rest : Text} {found items : List Item}
    {selfClosing : Bool}
    (h : readItems size start name found t = .ok (items, selfClosing, rest)) : rest <:+ t := by
  fun_induction readItems size start name found t with
  | case1 => cases h
  | case2 found t r hs =>
    have htrim : trimStart t <:+ t := List.dropWhile_suffix _
    cases h
    rw [hs] at htrim
    exact ((List.suffix_cons _ _).trans (List.suffix_cons _ _)).trans htrim
  | case3 found t r hs =>
    have htrim : trimStart t <:+ t := List.dropWhile_suffix _
    cases h
    rw [hs] at htrim
    exact (List.suffix_cons _ _).trans htrim
  | case4 found t r _ hs ih =>
    have htrim : trimStart t <:+ t := List.dropWhile_suffix _
    rw [hs] at htrim
    exact (ih h).trans ((List.suffix_cons _ _).trans htrim)
  | case5 => cases h
  | case6 found t c r _ _ _ hs itemStart value behind hr item ih =>
    have htrim : trimStart t <:+ t := List.dropWhile_suffix _
    have hname : r.dropWhile isItemChar <:+ r := List.dropWhile_suffix _
    rw [hs] at htrim
    exact (((ih h).trans (readAssignment?_suffix hr)).trans hname).trans
      ((List.suffix_cons _ _).trans htrim)

/-- A run of text, and what stops it, make the text. Nothing stops a text inside of the run. -/
theorem readRun_eq (t : Text) :
    (readRun t).1 ++ (readRun t).2 = t ∧ ∀ before behind, (readRun t).1 = before ++ behind →
      behind ≠ [] → stopsText (behind ++ (readRun t).2) = false := by
  induction t with
  | nil =>
    refine ⟨rfl, fun before behind h hne => ?_⟩
    exact absurd (List.append_eq_nil_iff.1 h.symm).2 hne
  | cons c t ih =>
    rw [readRun]
    split
    · refine ⟨rfl, fun before behind h hne => ?_⟩
      exact absurd (List.append_eq_nil_iff.1 h.symm).2 hne
    · rename_i hgoes
      obtain ⟨hmake, hstops⟩ := ih
      refine ⟨congrArg (c :: ·) hmake, fun before behind h hne => ?_⟩
      cases before with
      | nil =>
        rw [List.nil_append] at h
        rw [← h, List.cons_append, hmake]
        exact Bool.eq_false_iff.2 hgoes
      | cons d before => exact hstops before behind (List.cons.inj h).2 hne

theorem lexeme_suffix (size : Nat) (c : Char) (t : Text) : (lexeme size c t).rest <:+ t := by
  unfold lexeme
  split
  · rename_i r
    rw [readEnding]
    split
    · exact List.nil_suffix
    · rename_i hcut
      exact (suffix_of_cut? hcut).trans (List.suffix_cons _ _)
  · rw [readComment]
    split
    · exact List.nil_suffix
    · rename_i hcut
      exact suffix_of_cut? hcut
  · rename_i r
    rw [readInterpolation]
    split
    · exact List.nil_suffix
    · rename_i hcut
      exact (suffix_of_cut? hcut).trans (List.suffix_cons _ _)
  · split
    · rw [readOpening]
      split
      · exact List.nil_suffix
      · rename_i hitems
        exact (readItems_suffix hitems).trans (List.dropWhile_suffix _)
    · exact ⟨_, (readRun_eq t).1⟩

/-! ## What stands where a lexeme starts -/

section Starts

variable {size : Nat} {c : Char} {t rest : Text}

/-- A comment starts as all comments do, and ends with the first end of one. -/
theorem lexeme_eq_comment (h : lexeme size c t = .comment rest) :
    c = '<' ∧ (∃ r, t = '!' :: '-' :: '-' :: r) ∧
      ∃ comment, cut? ['-', '-', '>'] t = some (comment, rest) := by
  unfold lexeme at h
  split at h
  · rw [readEnding] at h
    split at h <;> cases h
  · rw [readComment] at h
    split at h
    · cases h
    · rename_i hcut
      cases h
      exact ⟨rfl, ⟨_, rfl⟩, _, hcut⟩
  · rw [readInterpolation] at h
    split at h <;> cases h
  · split at h
    · rw [readOpening] at h
      split at h <;> cases h
    · cases h

theorem lexeme_eq_interpolation {exp : Text} {span : Span}
    (h : lexeme size c t = .token (.interpolation exp span) rest) : c = '{' := by
  unfold lexeme at h
  split at h
  · rw [readEnding] at h
    split at h <;> cases h
  · rw [readComment] at h
    split at h <;> cases h
  · rfl
  · split at h
    · rw [readOpening] at h
      split at h <;> cases h
    · cases h

/-- A text starts with anything but a tag or a comment, and goes on with a run. -/
theorem lexeme_eq_text {content : Text} {span : Span}
    (h : lexeme size c t = .token (.text content span) rest) :
    rest = (readRun t).2 ∧ (c = '<' → headIs Char.isAlpha t = false ∧
      headIs (· = '/') t = false ∧ startsWith ['!', '-', '-'] t = false) := by
  unfold lexeme at h
  split at h
  · rw [readEnding] at h
    split at h <;> cases h
  · rw [readComment] at h
    split at h <;> cases h
  · rw [readInterpolation] at h
    split at h <;> cases h
  · rename_i hslash hcomment _
    split at h
    · rw [readOpening] at h
      split at h <;> cases h
    · rename_i hname
      cases h
      refine ⟨rfl, fun hc => ⟨?_, ?_, ?_⟩⟩
      · exact Bool.eq_false_iff.2 fun halpha => hname ⟨hc, halpha⟩
      · cases t with
        | nil => rfl
        | cons d t =>
          refine decide_eq_false fun hd => ?_
          subst hd
          exact hslash t hc rfl
      · refine Option.isSome_eq_false_iff.2 (Option.isNone_iff_eq_none.2 ?_)
        cases hafter : after? ['!', '-', '-'] t with
        | none => rfl
        | some behind => exact (hcomment behind hc (after?_eq_some.1 hafter)).elim

end Starts

end ModuleServer.Template
