import Mathlib.Data.List.Induction
import ModuleServer.Proofs.Component.Link
import ModuleServer.Proofs.Expression.Word
import ModuleServer.Proofs.Script.Export

/-!
# The default export of a main module

A main module closes with a default export of its own, so the object that its script exports is to
be bound to a name instead. The default export of the script is looked for by its letters
(`LooksLikeExport`): in comments and literals as well, and only where a line or a statement starts.

* `cutExport?_eq_some_iff`: what is found is the first text that looks like a default export.
* `mainModule_eq_iff`: whether the object of a default export is bound.
* `mainModule_defaultExport`: of a script with one default export the object is bound, and the last
  line is the only default export of the main module, exactly if nothing before it looks like one,
  it looks like one itself, and nothing of the script is open at its end.
-/

namespace ModuleServer.Component

open Text Script Script.Scan
open Expression (isNameChar isNameChar_of_isWordChar isNameChar_of_white)

/-! ## What looks like a default export -/

/-- Whether a statement may start behind a text: at the start of a line or behind a semicolon, with
spaces and tabs between. -/
def StartsStatement (before : Text) : Prop :=
  ∃ front blanks, before = front ++ blanks ∧ (∀ c ∈ blanks, c = ' ' ∨ c = '\t') ∧
    (front = [] ∨ ∃ back c, front = back ++ [c] ∧ (c = '\n' ∨ c = ';'))

/-- Whether what stands in a script between `before` and `behind` looks like a default export: its
two words with blanks between them, where a statement may start. -/
structure LooksLikeExport (script before gap behind : Text) : Prop where
  /-- The text of the script. -/
  text : script = before ++ (exportWord ++ (gap ++ (defaultWord ++ behind)))
  /-- A statement may start there. -/
  starts : StartsStatement before
  /-- There is something between its words. -/
  gap_ne : gap ≠ []
  /-- There is nothing but blanks. -/
  gap_blank : gap.all isBlank
  /-- No word goes on with its second word. -/
  ends : headIs isWordChar behind = false

/-- Whether a default export may start behind a text, where one may start in front of it or not. -/
def mayStart (atStart : Bool) (t : Text) : Bool :=
  t.foldl (fun atStart c => c = '\n' || c = ';' || (atStart && (c = ' ' || c = '\t'))) atStart

theorem mayStart_concat (atStart : Bool) (t : Text) (c : Char) : mayStart atStart (t ++ [c]) =
    (c = '\n' || c = ';' || (mayStart atStart t && (c = ' ' || c = '\t'))) :=
  List.foldl_append

theorem mayStart_iff (t : Text) : mayStart true t ↔ StartsStatement t := by
  induction t using List.reverseRecOn with
  | nil => exact ⟨fun _ => ⟨[], [], rfl, by simp, .inl rfl⟩, fun _ => rfl⟩
  | append_singleton t c ih =>
    rw [mayStart_concat]
    simp only [Bool.or_eq_true, Bool.and_eq_true, decide_eq_true_eq]
    constructor
    · rintro (hc | ⟨ht, hc⟩)
      · exact ⟨t ++ [c], [], (List.append_nil _).symm, by simp, .inr ⟨t, c, rfl, hc⟩⟩
      · obtain ⟨front, blanks, rfl, hblanks, hfront⟩ := ih.1 ht
        refine ⟨front, blanks ++ [c], List.append_assoc .., ?_, hfront⟩
        intro d hd
        rcases List.mem_append.1 hd with hd | hd
        · exact hblanks d hd
        · exact List.mem_singleton.1 hd ▸ hc
    · rintro ⟨front, blanks, heq, hblanks, hfront⟩
      rcases List.eq_nil_or_concat blanks with rfl | ⟨blanks, d, rfl⟩
      · -- the line or the statement before ends right here
        rw [List.append_nil] at heq
        rcases hfront with rfl | ⟨back, d, rfl, hd⟩
        · cases List.append_ne_nil_of_right_ne_nil t (List.cons_ne_nil c []) heq
        · obtain ⟨-, hcd⟩ := List.append_inj' heq rfl
          rw [(List.cons.inj hcd).1]
          exact .inl hd
      · rw [List.concat_eq_append, ← List.append_assoc] at heq
        obtain ⟨ht, hcd⟩ := List.append_inj' heq rfl
        rw [(List.cons.inj hcd).1]
        refine .inr ⟨ih.2 ⟨front, blanks, ht, fun e he => hblanks e ?_, hfront⟩, hblanks d ?_⟩
        · exact List.concat_eq_append ▸ List.mem_append_left _ he
        · exact List.concat_eq_append ▸ List.mem_append_right _ (List.mem_singleton.2 rfl)

/-- What follows the two words of a default export. -/
theorem afterExport?_eq_some_iff {t behind : Text} : afterExport? t = some behind ↔
    ∃ gap, t = exportWord ++ (gap ++ (defaultWord ++ behind)) ∧ gap ≠ [] ∧ gap.all isBlank ∧
      headIs isWordChar behind = false := by
  constructor
  · intro h
    rw [afterExport?] at h
    split at h
    · cases h
    · rename_i rest hrest
      obtain rfl := after?_eq_some.1 hrest
      split at h
      · rename_i hblank
        split at h
        · cases h
        · rename_i rest' hrest'
          split at h
          · cases h
          · rename_i hends
            obtain rfl := Option.some.inj h
            refine ⟨rest.takeWhile isBlank, ?_, ?_, List.all_takeWhile, by simpa using hends⟩
            · have hdrop : rest.dropWhile isBlank = defaultWord ++ rest' :=
                after?_eq_some.1 hrest'
              rw [← hdrop, List.takeWhile_append_dropWhile]
              rfl
            · cases rest with
              | nil => cases hblank
              | cons c rest =>
                have hc : isBlank c := hblank
                rw [List.takeWhile_cons_of_pos hc]
                exact List.cons_ne_nil _ _
      · cases h
  · rintro ⟨gap, rfl, hne, hblank, hends⟩
    have hafter : ∀ rest, after? "export".toList (exportWord ++ rest) = some rest :=
      after?_append _
    have hafter' : after? "default".toList (defaultWord ++ behind) = some behind :=
      after?_append _ _
    have hhead : headIs isBlank (gap ++ (defaultWord ++ behind)) := by
      obtain ⟨c, gap, rfl⟩ := List.exists_cons_of_ne_nil hne
      exact (Bool.and_eq_true_iff.1 (List.all_cons ▸ hblank)).1
    have hdrop : (gap ++ (defaultWord ++ behind)).dropWhile isBlank = defaultWord ++ behind :=
      dropWhile_run hblank rfl
    simp only [afterExport?, hafter, hhead, hdrop, hafter', hends]
    rfl

/-! ## The first one -/

/-- Whether the two words of a default export stand in a text behind `before`, where one may start,
and in front of `behind`. -/
def IsFoundAt (atStart : Bool) (t before behind : Text) : Prop :=
  ∃ rest, t = before ++ rest ∧ mayStart atStart before ∧ afterExport? rest = some behind

section Found

variable {atStart : Bool} {t before behind : Text} {c d : Char}

theorem isFoundAt_nil : IsFoundAt atStart t [] behind ↔ atStart ∧ afterExport? t = some behind :=
  ⟨fun ⟨_, hrest, hstart, h⟩ => ⟨hstart, hrest ▸ h⟩, fun ⟨hstart, h⟩ => ⟨t, rfl, hstart, h⟩⟩

theorem isFoundAt_cons : IsFoundAt atStart (c :: t) (d :: before) behind ↔
    c = d ∧ IsFoundAt (mayStart atStart [c]) t before behind := by
  constructor
  · rintro ⟨rest, heq, hstart, h⟩
    obtain ⟨rfl, rfl⟩ := List.cons.inj heq
    exact ⟨rfl, rest, rfl, hstart, h⟩
  · rintro ⟨rfl, rest, rfl, hstart, h⟩
    exact ⟨rest, rfl, hstart, h⟩

theorem isFoundAt_true_iff : IsFoundAt true t before behind ↔
    ∃ gap, LooksLikeExport t before gap behind := by
  constructor
  · rintro ⟨rest, rfl, hstart, h⟩
    obtain ⟨gap, rfl, hne, hblank, hends⟩ := afterExport?_eq_some_iff.1 h
    exact ⟨gap, rfl, (mayStart_iff before).1 hstart, hne, hblank, hends⟩
  · rintro ⟨gap, h⟩
    refine ⟨_, h.text, (mayStart_iff before).2 h.starts, ?_⟩
    exact afterExport?_eq_some_iff.2 ⟨gap, rfl, h.gap_ne, h.gap_blank, h.ends⟩

/-- A text is cut at the first place where the two words are found. -/
theorem cutExport?_eq_some_iff_isFoundAt : cutExport? atStart t = some (before, behind) ↔
    IsFoundAt atStart t before behind ∧
      ∀ before' behind', IsFoundAt atStart t before' behind' → before.length ≤ before'.length := by
  induction t generalizing atStart before with
  | nil =>
    constructor
    · intro h
      cases h
    · rintro ⟨⟨rest, hrest, -, h⟩, -⟩
      obtain ⟨-, rfl⟩ := List.append_eq_nil_iff.1 hrest.symm
      cases h
  | cons c t ih =>
    rw [cutExport?]
    split
    · -- the two words stand right here
      rename_i behind' hhere
      have hfound : IsFoundAt atStart (c :: t) [] behind' := by
        rw [isFoundAt_nil]
        split at hhere
        · exact ⟨‹_›, hhere⟩
        · cases hhere
      constructor
      · intro h
        obtain ⟨rfl, rfl⟩ := Prod.mk.inj (Option.some.inj h)
        exact ⟨hfound, fun _ _ _ => Nat.zero_le _⟩
      · rintro ⟨h, hfirst⟩
        obtain rfl := List.eq_nil_of_length_eq_zero (Nat.le_zero.1 (hfirst _ _ hfound))
        have hsame := (isFoundAt_nil.1 hfound).2.symm.trans (isFoundAt_nil.1 h).2
        rw [Option.some.inj hsame]
    · rename_i hnone
      have hnot : ∀ behind', ¬IsFoundAt atStart (c :: t) [] behind' := by
        intro behind' h
        obtain ⟨hstart, h⟩ := isFoundAt_nil.1 h
        rw [if_pos hstart, h] at hnone
        cases hnone
      cases before with
      | nil => simp [hnot]
      | cons d before =>
        have hrest : cutExport? (mayStart atStart [c]) t = some (before, behind) ↔ _ := ih
        constructor
        · intro h
          obtain ⟨p, hp, heq⟩ := Option.map_eq_some_iff.1 h
          obtain ⟨hbefore, rfl⟩ := Prod.mk.inj heq
          obtain ⟨rfl, rfl⟩ := List.cons.inj hbefore
          obtain ⟨hfound, hfirst⟩ := hrest.1 hp
          refine ⟨isFoundAt_cons.2 ⟨rfl, hfound⟩, ?_⟩
          rintro (_ | ⟨e, before'⟩) behind' h'
          · exact absurd h' (hnot _)
          · exact Nat.succ_le_succ (hfirst _ _ (isFoundAt_cons.1 h').2)
        · rintro ⟨hfound, hfirst⟩
          obtain ⟨rfl, hbehind⟩ := isFoundAt_cons.1 hfound
          have hcut := hrest.2 ⟨hbehind, fun before' behind' h' =>
            Nat.le_of_succ_le_succ (hfirst (c :: before') behind' (isFoundAt_cons.2 ⟨rfl, h'⟩))⟩
          exact Option.map_eq_some_iff.2 ⟨_, hcut, rfl⟩

/-- A script is cut at the first text that looks like a default export. -/
theorem cutExport?_eq_some_iff : cutExport? true t = some (before, behind) ↔
    (∃ gap, LooksLikeExport t before gap behind) ∧
      ∀ before' gap' behind', LooksLikeExport t before' gap' behind' →
        before.length ≤ before'.length := by
  rw [cutExport?_eq_some_iff_isFoundAt, isFoundAt_true_iff]
  refine and_congr_right fun _ => ⟨?_, ?_⟩
  · intro h before' gap' behind' h'
    exact h before' behind' (isFoundAt_true_iff.2 ⟨gap', h'⟩)
  · intro h before' behind' h'
    obtain ⟨gap', h'⟩ := isFoundAt_true_iff.1 h'
    exact h before' gap' behind' h'

end Found

/-! ## The object of a default export -/

/-- What stands in front of the object, where it is bound. -/
def objectBinding : Text := "const ".toList ++ objectName ++ " =".toList

section Object

variable {script before gap gap' behind behind' : Text}

theorem isInert_of_isBlank {c : Char} (hc : isBlank c) : isInert c :=
  forall_blank (P := fun c => isInert c) (by decide) hc

/-- What looks like a default export in the place of one is that. -/
theorem eq_of_looksLikeExport (h : IsDefaultExport script before gap behind)
    (h' : LooksLikeExport script before gap' behind') : gap' = gap ∧ behind' = behind := by
  have htext := h.text.symm.trans h'.text
  simp only [List.append_cancel_left_eq] at htext
  rcases List.append_eq_append_iff.1 htext with ⟨more, hgap, hmore⟩ | ⟨more, hgap, hmore⟩
  · rcases more with _ | ⟨c, more⟩
    · rw [List.append_nil] at hgap
      exact ⟨hgap, (List.append_cancel_left hmore).symm⟩
    · -- the second word would start in the blanks
      obtain ⟨rfl, -⟩ := List.cons.inj hmore
      have hblank := h'.gap_blank
      rw [hgap, List.all_append, List.all_cons, Bool.and_eq_true, Bool.and_eq_true] at hblank
      exact absurd hblank.2.1 (by decide)
  · rcases more with _ | ⟨c, more⟩
    · rw [List.append_nil] at hgap
      exact ⟨hgap.symm, List.append_cancel_left hmore⟩
    · -- a word would start behind the blanks
      obtain rfl : 'd' = c := (List.cons.inj hmore).1
      have hinert : gap'.all isInert :=
        List.all_eq_true.2 fun c hc => isInert_of_isBlank (List.all_eq_true.1 h'.gap_blank c hc)
      have hwhite := h.gap_white
      rw [hgap, code_append, (run_of_isInert hinert).1, isWhiteOnly, List.all_append,
        Bool.and_eq_true] at hwhite
      have hshown : start.code ('d' :: more) = 'd' :: start.code more := rfl
      have hword := hwhite.2
      rw [hshown, List.all_cons, Bool.and_eq_true] at hword
      exact absurd hword.1 (by decide)

theorem eq_of_append_cons {a b x y z w : Text} {c d : Char} (hne : c ≠ d)
    (h : a ++ c :: x = b ++ c :: y) (h' : a ++ d :: z = b ++ d :: w) : a = b := by
  induction a generalizing b with
  | nil =>
    cases b with
    | nil => rfl
    | cons e b => exact absurd ((List.cons.inj h).1.trans (List.cons.inj h').1.symm) hne
  | cons e a ih =>
    cases b with
    | nil => exact absurd ((List.cons.inj h).1.symm.trans (List.cons.inj h').1) hne
    | cons f b =>
      obtain ⟨rfl, hrest⟩ := List.cons.inj h
      rw [ih hrest (List.cons.inj h').2]

/-- A text is ended by what is missing of a line feed at its end. -/
theorem endLine_eq (t : Text) : ∃ tail, endLine t = t ++ tail ∧
    (tail = ['\n'] ∨ tail = [] ∧ (t = [] ∨ ∃ front, t = front ++ ['\n'])) := by
  rw [endLine]
  split
  · rename_i h
    refine ⟨[], (List.append_nil _).symm, .inr ⟨rfl, ?_⟩⟩
    rcases Bool.or_eq_true_iff.1 h with h | h
    · exact .inl (List.isEmpty_iff.1 h)
    · obtain ⟨rest, hrest⟩ := Option.isSome_iff_exists.1 h
      refine .inr ⟨rest.reverse, ?_⟩
      rw [← List.reverse_reverse t, after?_eq_some.1 hrest, List.reverse_append]
      rfl
  · exact ⟨['\n'], rfl, .inl rfl⟩

/-- The object of a default export is bound exactly if the script is cut there. -/
theorem mainModule_eq_iff {c : Component} {block : Block} (hblock : c.script = some block)
    (h : IsDefaultExport block.content before gap behind) (path : Text) (token : Nat) :
    mainModule path token c =
        endLine (importLine path token ++ (before ++ (objectBinding ++ behind))) ++ exportLines ↔
      cutExport? true block.content = some (before, behind) := by
  have hmain : mainModule path token c =
      endLine (importLine path token ++ bindExport block.content) ++ exportLines := by
    rw [mainModule, hblock]
  rw [hmain]
  constructor
  · intro heq
    obtain ⟨tail, htail, -⟩ := endLine_eq (importLine path token ++ bindExport block.content)
    obtain ⟨tail', htail', -⟩ :=
      endLine_eq (importLine path token ++ (before ++ (objectBinding ++ behind)))
    rw [htail, htail'] at heq
    simp only [List.append_assoc, List.append_cancel_left_eq] at heq
    rw [bindExport] at heq
    cases hcut : cutExport? true block.content with
    | none =>
      -- the script stands in front of the added object as it is
      obtain ⟨tail'', htail'', -⟩ := endLine_eq block.content
      rw [hcut] at heq
      dsimp only at heq
      rw [htail'', h.text] at heq
      simp only [List.append_assoc, List.append_cancel_left_eq] at heq
      exact absurd (List.cons.inj heq).1 (by decide)
    | some p =>
      obtain ⟨before', behind'⟩ := p
      obtain ⟨gap', hlooks⟩ := (cutExport?_eq_some_iff.1 hcut).1
      rw [hcut] at heq
      dsimp only at heq
      simp only [List.append_assoc] at heq
      obtain rfl : before' = before :=
        eq_of_append_cons (c := 'c') (d := 'e') (by decide) heq (hlooks.text.symm.trans h.text)
      obtain ⟨-, rfl⟩ := eq_of_looksLikeExport h hlooks
      rfl
  · intro hcut
    have hbind : bindExport block.content = before ++ (objectBinding ++ behind) := by
      have hbinding : objectBinding = "const ".toList ++ objectName ++ " =".toList := rfl
      rw [bindExport, hcut, hbinding]
      simp only [List.append_assoc]
    rw [hbind]

end Object

/-! ## The code of the main module -/

/-- The statement that attaches the render function. -/
def attachment : Text := objectName ++ ".render = ".toList ++ renderName

/-- The last line of a main module. -/
def lastLine : Text := exportWord ++ ([' '] ++ (defaultWord ++ (' ' :: objectName ++ ['\n'])))

theorem run_importLine (path : Text) (token : Nat) :
    start.run (importLine path token) = start ∧
      start.code (importLine path token) = importStart ++ ['"', '\n'] := by
  obtain ⟨tail, htail⟩ : ∃ tail, "?type=template&d=".toList ++ decimal token = tail := ⟨_, rfl⟩
  have hne : tail ≠ [] := htail ▸ List.append_ne_nil_of_left_ne_nil (List.cons_ne_nil _ _) _
  have hback : '\\' ∉ tail := by
    rw [← htail, List.mem_append, not_or]
    refine ⟨by decide, fun h => ?_⟩
    exact absurd (Nat.isDigit_of_mem_toDigits (by decide) (by decide) h) (by decide)
  obtain ⟨front, d, rfl⟩ := (List.eq_nil_or_concat tail).resolve_left hne
  rw [List.concat_eq_append] at htail hback
  have hd : d ≠ '\\' := by
    rintro rfl
    exact hback (by simp)
  -- the address does not end the literal, nor hide the mark that does
  have hurl : templateUrl path token = encodePath path ++ front ++ [d] := by
    rw [templateUrl, List.append_assoc, htail, List.append_assoc]
  have hfree : ∀ c ∈ encodePath path ++ front ++ [d], c ≠ quoteMark true ∧ c ≠ '\n' ∧ c ≠ '\r' := by
    rw [← hurl]
    have hfree : ∀ e, isEncoded e → e ≠ '%' → e ∉ "?type=template&d=".toList →
        e.isDigit = false → ∀ c ∈ templateUrl path token, c ≠ e := by
      rintro e he hpercent hfixed hdigit c hc rfl
      exact not_mem_templateUrl he hpercent hfixed hdigit path token hc
    exact fun c hc => ⟨hfree '"' (by decide) (by decide) (by decide) (by decide) c hc,
      hfree '\n' (by decide) (by decide) (by decide) (by decide) c hc,
      hfree '\r' (by decide) (by decide) (by decide) (by decide) c hc⟩
  obtain ⟨hrun, hcode⟩ := run_string_concat
    (fun c hc => hfree c (List.mem_append_left _ hc)) hd (hfree d (by simp)) false
  have hstart : start.run importStart = ⟨.string true false, []⟩ := by decide
  have hshown : start.code importStart = importStart := by decide
  have hline : importLine path token = importStart ++ templateUrl path token ++ ['"', '\n'] := rfl
  rw [hline, hurl, List.append_assoc, run_append start importStart, run_append,
    code_append start importStart, code_append, hstart, hshown, hrun, hcode]
  exact ⟨rfl, rfl⟩

/-! ## The last line -/

section LastLine

variable {t : Text}

/-- What a main module closes with, with no name across the start of the line that attaches the
render function. -/
theorem exists_tail (t : Text) : ∃ tail, (tail = [] ∨ tail = ['\n']) ∧
    (headIs isNameChar t.reverse = false ∨
      headIs isNameChar (tail ++ attachment ++ ['\n']) = false) ∧
    endLine t ++ exportLines = t ++ (tail ++ attachment ++ ['\n']) ++ lastLine := by
  have hlines : exportLines = attachment ++ ['\n'] ++ lastLine := rfl
  obtain ⟨tail, htail, hend⟩ := endLine_eq t
  have heq : endLine t ++ exportLines = t ++ (tail ++ attachment ++ ['\n']) ++ lastLine := by
    rw [htail, hlines]
    simp only [List.append_assoc]
  rcases hend with rfl | ⟨rfl, rfl | ⟨front, rfl⟩⟩
  · exact ⟨['\n'], .inr rfl, .inr rfl, heq⟩
  · exact ⟨[], .inl rfl, .inl rfl, heq⟩
  · exact ⟨[], .inl rfl, .inl (by rw [List.reverse_append]; rfl), heq⟩

/-- The line that attaches the render function opens and closes nothing. -/
theorem run_attachment {tail : Text} (htail : tail = [] ∨ tail = ['\n']) (s : Scan) :
    ((s.run (tail ++ attachment ++ ['\n'])).inCode ↔ s.isClosed) ∧
      (s.isClosed → s.run (tail ++ attachment ++ ['\n']) = start) := by
  have hattachment : attachment = "_sfc_main.render = _sfc_rende".toList ++ ['r'] := rfl
  have hline : tail ++ attachment ++ ['\n'] =
      tail ++ "_sfc_main.render = _sfc_rende".toList ++ ['r', '\n'] := by
    rw [hattachment, ← List.append_assoc, List.append_assoc]
    rfl
  have hcalm : (tail ++ "_sfc_main.render = _sfc_rende".toList).all isCalm := by
    rcases htail with rfl | rfl <;> decide
  rw [hline]
  exact ⟨inCode_run_line hcalm (by decide) s, run_line hcalm (by decide)⟩

/-- The last line is a default export exactly if nothing is open where it is added. -/
theorem isDefaultExport_lastLine (t : Text) :
    (∃ front, IsDefaultExport (endLine t ++ exportLines) (front ++ ['\n']) [' ']
      (' ' :: objectName ++ ['\n'])) ↔ (start.run t).isClosed := by
  obtain ⟨tail, htail, -, heq⟩ := exists_tail t
  have hrun : start.run (t ++ tail ++ attachment ++ ['\n']) =
      (start.run t).run (tail ++ attachment ++ ['\n']) := by
    rw [← run_append]
    simp only [List.append_assoc]
  have heq' : endLine t ++ exportLines = t ++ tail ++ attachment ++ ['\n'] ++
      (exportWord ++ ([' '] ++ (defaultWord ++ (' ' :: objectName ++ ['\n'])))) := by
    rw [heq, lastLine]
    simp only [List.append_assoc]
  rw [← (run_attachment htail (start.run t)).1, ← hrun]
  constructor
  · rintro ⟨front, h⟩
    have hfront := List.append_cancel_right (heq'.symm.trans h.text)
    rw [hfront]
    exact h.inCode
  · intro hin
    refine ⟨t ++ tail ++ attachment, heq', hin, ?_, List.cons_ne_nil _ _, ?_, ?_, rfl⟩
    · rw [List.reverse_append]
      rfl
    · decide
    · decide

/-- The last line adds one default export to those before it, if nothing is open there. -/
theorem defaultExports_lastLine (h : (start.run t).isClosed) :
    defaultExports (endLine t ++ exportLines) = defaultExports t + 1 := by
  obtain ⟨tail, htail, hparted, heq⟩ := exists_tail t
  obtain ⟨line, hline⟩ : ∃ line, tail ++ attachment ++ ['\n'] = line := ⟨_, rfl⟩
  have hrun : (start.run t).run line = start := hline ▸ (run_attachment htail (start.run t)).2 h
  rw [hline] at hparted heq
  have hends : headIs isNameChar (t ++ line).reverse = false := by
    rw [← hline, List.reverse_append, List.reverse_append]
    rfl
  have hlast : start.code lastLine = lastLine := by decide
  have hfirst : lexemes (start.code (t ++ line)) =
      lexemes (start.code t) ++ lexemes ((start.run t).code line) := by
    rcases hparted with ht | hhead
    · exact lexemes_code_append_of_ends start ht line
    · exact lexemes_code_append_of_headIs start t hhead
  -- the line between says neither of the two words
  have hexport : exportWord ∉ lexemes ((start.run t).code line) :=
    not_mem_lexemes_code (c := 'x') _ (by decide) (by decide)
      (by rw [← hline]; rcases htail with rfl | rfl <;> decide)
  have hdefault : defaultWord ∉ lexemes ((start.run t).code line) :=
    not_mem_lexemes_code (c := 'u') _ (by decide) (by decide)
      (by rw [← hline]; rcases htail with rfl | rfl <;> decide)
  have hhead :
      (lexemes ((start.run t).code line) ++ lexemes lastLine).head? ≠ some defaultWord := by
    cases hline : lexemes ((start.run t).code line) with
    | nil => decide
    | cons word words =>
      intro h
      rw [hline, Option.some.inj h] at hdefault
      exact hdefault List.mem_cons_self
  have hone : exportsIn (lexemes lastLine) = 1 := by decide
  rw [defaultExports, heq, lexemes_code_append_of_ends start hends, hfirst, run_append, hrun, hlast,
    List.append_assoc, exportsIn_append fun _ => hhead, exportsIn_append_left hexport, hone,
    defaultExports]

end LastLine

/-! ## The script's default export -/

section Bound

variable {script before gap behind : Text}

/-- Where the object of a default export is bound behind an import, there is one default export
fewer, and the same is open at the end. -/
theorem bound_eq (h : IsDefaultExport script before gap behind) (path : Text) (token : Nat) :
    start.run (importLine path token ++ (before ++ (objectBinding ++ behind))) = start.run script ∧
      defaultExports (importLine path token ++ (before ++ (objectBinding ++ behind))) + 1 =
        defaultExports script := by
  obtain ⟨hrunImport, hcodeImport⟩ := run_importLine path token
  obtain ⟨hrun, hlexemes⟩ := h.lexemes_replace (t := objectBinding) (List.cons_ne_nil _ _)
    (by decide) (by decide) behind
  have himport : headIs isNameChar (importStart ++ ['"', '\n']).reverse = false := by decide
  have hsilent : exportWord ∉ lexemes (importStart ++ ['"', '\n']) := by decide
  have hsilent' : exportWord ∉ lexemes objectBinding := by decide
  have hhead : (lexemes objectBinding ++ lexemes (start.code behind)).head? ≠ some defaultWord := by
    have hconst : lexemes objectBinding = ["const".toList, objectName, ['=']] := by decide
    rw [hconst]
    exact fun h => absurd (Option.some.inj h) (by decide)
  constructor
  · rw [run_append, hrunImport, hrun, h.code_eq.2]
  · rw [h.defaultExports_eq, defaultExports, code_append, hrunImport, hcodeImport,
      lexemes_append_of_ends himport, hlexemes, exportsIn_append_left hsilent,
      exportsIn_append fun _ => hhead, exportsIn_append_left hsilent']
    omega

end Bound

/-- A script with one default export has it somewhere, and the main module is as it should be (the
object of the default export is bound to its name, and the last line is the only default export)
exactly if the default export is the first text that looks like one, and nothing of the script is
open at its end. -/
theorem mainModule_defaultExport {c : Component} {script : Block} (hscript : c.script = some script)
    (hone : defaultExports script.content = 1) (path : Text) (token : Nat) :
    (∃ before gap behind, IsDefaultExport script.content before gap behind) ∧
      ∀ before gap behind, IsDefaultExport script.content before gap behind →
        ((mainModule path token c =
              endLine (importLine path token ++ (before ++ (objectBinding ++ behind))) ++
                exportLines ∧
            defaultExports (mainModule path token c) = 1 ∧
            ∃ front, IsDefaultExport (mainModule path token c) (front ++ ['\n']) [' ']
              (' ' :: objectName ++ ['\n'])) ↔
          LooksLikeExport script.content before gap behind ∧
            (∀ before' gap' behind', LooksLikeExport script.content before' gap' behind' →
              before.length ≤ before'.length) ∧
            (start.run script.content).isClosed) := by
  refine ⟨exists_isDefaultExport (by omega), fun before gap behind h => ?_⟩
  obtain ⟨hrun, hcount⟩ := bound_eq h path token
  have hbound := mainModule_eq_iff hscript h path token
  rw [cutExport?_eq_some_iff] at hbound
  constructor
  · rintro ⟨hmain, -, hlast⟩
    obtain ⟨⟨gap', hlooks⟩, hfirst⟩ := hbound.1 hmain
    obtain ⟨rfl, -⟩ := eq_of_looksLikeExport h hlooks
    rw [hmain, isDefaultExport_lastLine, hrun] at hlast
    exact ⟨hlooks, hfirst, hlast⟩
  · rintro ⟨hlooks, hfirst, hclosed⟩
    have hmain := hbound.2 ⟨⟨gap, hlooks⟩, hfirst⟩
    rw [← hrun] at hclosed
    refine ⟨hmain, ?_, ?_⟩
    · rw [hmain, defaultExports_lastLine hclosed]
      omega
    · rw [hmain]
      exact (isDefaultExport_lastLine _).2 hclosed

/-- A script with a default export behind a comment with another one. -/
def commentedScript : Text := "\n/*\nexport default old\n*/\nexport default \x7b\x7d\n".toList

theorem mainModule_defaultExport_commentedScript :
    let c : Component := ⟨none, some ⟨commentedScript, [], ⟨0, 0⟩⟩, none⟩
    let before := "\n/*\nexport default old\n*/\n".toList
    defaultExports commentedScript = 1 ∧
      IsDefaultExport commentedScript before [' '] " \x7b\x7d\n".toList ∧
      ¬(mainModule "/A.vue".toList 1 c = endLine (importLine "/A.vue".toList 1 ++
            (before ++ (objectBinding ++ " \x7b\x7d\n".toList))) ++ exportLines ∧
          defaultExports (mainModule "/A.vue".toList 1 c) = 1 ∧
          ∃ front, IsDefaultExport (mainModule "/A.vue".toList 1 c) (front ++ ['\n']) [' ']
            (' ' :: objectName ++ ['\n'])) := by
  intro c before
  have hone : defaultExports commentedScript = 1 := by decide
  have hexport : IsDefaultExport commentedScript before [' '] " \x7b\x7d\n".toList :=
    ⟨by decide, by decide, by decide, by decide, by decide, by decide, by decide⟩
  refine ⟨hone, hexport, fun hbound => ?_⟩
  obtain ⟨-, hiff⟩ := mainModule_defaultExport (c := c) rfl hone "/A.vue".toList 1
  obtain ⟨-, hfirst, -⟩ := (hiff _ _ _ hexport).1 hbound
  -- the text in the comment looks like a default export, and stands before it
  have hcomment : LooksLikeExport commentedScript "\n/*\n".toList [' ']
      " old\n*/\nexport default \x7b\x7d\n".toList :=
    ⟨by decide, ⟨"\n/*\n".toList, [], by decide, by simp, .inr ⟨"\n/*".toList, '\n', by decide,
      .inl rfl⟩⟩, by decide, by decide, by decide⟩
  exact absurd (hfirst _ _ _ hcomment) (by decide)

end ModuleServer.Component
