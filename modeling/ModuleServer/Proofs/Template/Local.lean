import ModuleServer.Proofs.Template.Passage

/-!
# Opening tags elsewhere

A reader of an opening tag looks no further than to the mark that closes the tag. So the tag is the
same whatever follows and wherever it stands, but for the places of its items, which move with it
(`IsOpening.elsewhere`).

* `readItems_eq`: one step of reading the items of a tag.
* `readItems_elsewhere`: the items of a tag that is read in another place.
* `IsOpening.parts`: an opening tag starts with its name and ends with its closing mark.
-/

namespace ModuleServer.Template

open Text

theorem Item.relocate_ofText (f : Nat → Nat) (name : Text) (value : Option Text) (span : Span) :
    (Item.ofText name value span).relocate f = Item.ofText name value (span.relocate f) := by
  rw [Item.ofText, Item.ofText]
  split <;> rfl

/-! ## Values -/

theorem byteSize_le_of_suffix {t rest : Text} (h : rest <:+ t) : byteSize rest ≤ byteSize t := by
  obtain ⟨before, rfl⟩ := h
  rw [byteSize_append]
  omega

section Values

variable {w rest behind v : Text}

theorem trimStart_stop (w rest : Text) :
    trimStart (w ++ '>' :: rest) = trimStart w ++ '>' :: rest :=
  dropWhile_stop w rest (by decide)

/-- What is left of a text reaches back to the closing mark, if there is more of it than stands
behind the mark. -/
theorem mark_suffix_of_suffix (h : behind <:+ w ++ '>' :: rest)
    (hlt : rest.length < behind.length) : ∃ x, behind = x ++ '>' :: rest := by
  have hmark : '>' :: rest <:+ behind :=
    List.suffix_of_suffix_length_le (List.suffix_append _ _) h hlt
  obtain ⟨x, hx⟩ := hmark
  exact ⟨x, hx.symm⟩

theorem readValue?_elsewhere (h : readValue? (w ++ '>' :: rest) = some (v, behind))
    (hlt : rest.length < behind.length) :
    ∃ x, behind = x ++ '>' :: rest ∧ x <:+ w ∧
      ∀ rest', readValue? (w ++ '>' :: rest') = some (v, x ++ '>' :: rest') := by
  obtain ⟨x, rfl⟩ := mark_suffix_of_suffix (readValue?_suffix h) hlt
  refine ⟨x, rfl, ?_⟩
  cases w with
  | nil =>
    obtain ⟨rfl, hx⟩ := Prod.mk.inj (Option.some.inj h)
    obtain rfl : [] = x := List.append_cancel_right hx
    exact ⟨List.suffix_rfl, fun rest' => rfl⟩
  | cons c w =>
    rw [List.cons_append, readValue?] at h
    by_cases hquote : c = '"' ∨ c = '\''
    · rw [if_pos hquote] at h
      have hcut := cut?_of_append h
      refine ⟨(suffix_of_cut? hcut).trans (List.suffix_cons _ _), fun rest' => ?_⟩
      rw [List.cons_append, readValue?, if_pos hquote]
      exact cut?_append_right (List.cons_ne_nil _ _) hcut _
    · rw [if_neg hquote, ← List.cons_append, takeWhile_stop _ _ rfl, dropWhile_stop _ _ rfl] at h
      obtain ⟨rfl, hx⟩ := Prod.mk.inj (Option.some.inj h)
      obtain rfl := List.append_cancel_right hx
      refine ⟨List.dropWhile_suffix _, fun rest' => ?_⟩
      rw [List.cons_append, readValue?, if_neg hquote, ← List.cons_append, takeWhile_stop _ _ rfl,
        dropWhile_stop _ _ rfl]

theorem readAssignment?_equals {t r : Text} (h : trimStart t = '=' :: r) :
    readAssignment? t = (readValue? (trimStart r)).map fun (value, rest) =>
      (some (Reference.decode value), rest) := by
  rw [readAssignment?, h]
  rfl

theorem readAssignment?_none {t : Text} (h : headIs (· = '=') (trimStart t) = false) :
    readAssignment? t = some (none, trimStart t) := by
  rw [readAssignment?]
  split
  · simp_all [headIs]
  · rfl

theorem readAssignment?_elsewhere {value : Option Text}
    (h : readAssignment? (w ++ '>' :: rest) = some (value, behind))
    (hlt : rest.length < behind.length) :
    ∃ x, behind = x ++ '>' :: rest ∧ x <:+ w ∧
      ∀ rest', readAssignment? (w ++ '>' :: rest') = some (value, x ++ '>' :: rest') := by
  have htrim : trimStart w <:+ w := List.dropWhile_suffix _
  cases hequals : headIs (· = '=') (trimStart w) with
  | false =>
    have hnone : ∀ r, readAssignment? (w ++ '>' :: r) = some (none, trimStart w ++ '>' :: r) := by
      intro r
      rw [readAssignment?_none, trimStart_stop]
      rw [trimStart_stop]
      cases hw : trimStart w with
      | nil => rfl
      | cons c u => simpa [hw, headIs] using hequals
    obtain ⟨rfl, rfl⟩ := Prod.mk.inj (Option.some.inj (h.symm.trans (hnone rest)))
    exact ⟨trimStart w, rfl, htrim, hnone⟩
  | true =>
    obtain ⟨u, hw⟩ : ∃ u, trimStart w = '=' :: u := by
      cases hw : trimStart w with
      | nil => simp [hw, headIs] at hequals
      | cons c u =>
        obtain rfl : c = '=' := by simpa [hw, headIs] using hequals
        exact ⟨u, rfl⟩
    have hread : ∀ r, readAssignment? (w ++ '>' :: r) =
        (readValue? (trimStart u ++ '>' :: r)).map fun (value, rest) =>
          (some (Reference.decode value), rest) := by
      intro r
      rw [← trimStart_stop]
      refine readAssignment?_equals ?_
      rw [trimStart_stop, hw, List.cons_append]
    rw [hread] at h
    obtain ⟨⟨v, behind'⟩, hvalue, heq⟩ := Option.map_eq_some_iff.1 h
    obtain ⟨rfl, rfl⟩ := Prod.mk.inj heq
    obtain ⟨x, hx, hsuffix, helsewhere⟩ := readValue?_elsewhere hvalue hlt
    have hu : trimStart u <:+ u := List.dropWhile_suffix _
    rw [hw] at htrim
    refine ⟨x, hx, (hsuffix.trans hu).trans ((List.suffix_cons _ _).trans htrim), fun rest' => ?_⟩
    rw [hread, helsewhere, Option.map_some]

end Values

/-! ## Items -/

section Items

variable {size start n : Nat} {name t rest : Text} {found items : List Item} {selfClosing : Bool}

/-- One step of reading the items of a tag. -/
theorem readItems_eq (size start : Nat) (name : Text) (found : List Item) (t : Text) :
    readItems size start name found t = match trimStart t with
      | [] => .error ⟨.unterminatedTag name, ⟨start, size⟩⟩
      | '/' :: '>' :: rest => .ok (found.reverse, true, rest)
      | '>' :: rest => .ok (found.reverse, false, rest)
      | '/' :: rest => readItems size start name found rest
      | c :: rest =>
        match readAssignment? (rest.dropWhile isItemChar) with
        | none => .error ⟨.unterminatedValue, ⟨size - byteSize (c :: rest), size⟩⟩
        | some (value, behind) =>
          readItems size start name
            (Item.ofText (c :: rest.takeWhile isItemChar) value
              ⟨size - byteSize (c :: rest), size - byteSize behind⟩ :: found) behind := by
  rw [readItems]
  split
  · simp_all
  · simp_all
  · simp_all
  · simp_all
  · rename_i hs
    split <;> simp_all

theorem readItems_selfClosing (ht : trimStart t = '/' :: '>' :: rest) :
    readItems size start name found t = .ok (found.reverse, true, rest) := by
  rw [readItems_eq, ht]
  rfl

theorem readItems_slash (ht : trimStart t = '/' :: rest) (hrest : headIs (· = '>') rest = false) :
    readItems size start name found t = readItems size start name found rest := by
  rw [readItems_eq, ht]
  split
  · simp_all
  · rename_i heq
    cases heq
    simp [headIs] at hrest
  · simp_all
  · simp_all
  · cases ‹_ :: _ = _ :: _›
    simp_all

theorem readItems_other {c : Char} {r : Text} (ht : trimStart t = c :: r) (hslash : c ≠ '/')
    (hmark : c ≠ '>') :
    readItems size start name found t = match readAssignment? (r.dropWhile isItemChar) with
      | none => .error ⟨.unterminatedValue, ⟨size - byteSize (c :: r), size⟩⟩
      | some (value, behind) =>
        readItems size start name
          (Item.ofText (c :: r.takeWhile isItemChar) value
            ⟨size - byteSize (c :: r), size - byteSize behind⟩ :: found) behind := by
  rw [readItems_eq, ht]
  split
  · simp_all
  · simp_all
  · simp_all
  · simp_all
  · rename_i heq
    cases heq
    rfl

/-- An opening tag ends with its closing mark. -/
theorem mark_suffix_of_readItems
    (h : readItems size start name found t = .ok (items, selfClosing, rest)) :
    '>' :: rest <:+ t := by
  fun_induction readItems size start name found t with
  | case1 => cases h
  | case2 found t r hs =>
    have htrim : trimStart t <:+ t := List.dropWhile_suffix _
    cases h
    rw [hs] at htrim
    exact (List.suffix_cons _ _).trans htrim
  | case3 found t r hs =>
    have htrim : trimStart t <:+ t := List.dropWhile_suffix _
    cases h
    rw [hs] at htrim
    exact htrim
  | case4 found t r _ hs ih =>
    have htrim : trimStart t <:+ t := List.dropWhile_suffix _
    rw [hs] at htrim
    exact (ih h).trans ((List.suffix_cons _ _).trans htrim)
  | case5 => cases h
  | case6 found t c r _ _ _ hs itemStart value behind hr item ih =>
    have htrim : trimStart t <:+ t := List.dropWhile_suffix _
    have hname : r.dropWhile isItemChar <:+ r := List.dropWhile_suffix _
    rw [hs] at htrim
    exact (((ih h).trans (readAssignment?_suffix hr)).trans hname).trans
      ((List.suffix_cons _ _).trans htrim)

/-- The items of a tag that is read in another place, with another text behind. -/
theorem readItems_elsewhere {size' : Nat} {w : Text} (start' : Nat) (rest' : Text)
    (h : readItems size start name (found.map (Item.relocate (n + ·))) (w ++ '>' :: rest) =
      .ok (items, selfClosing, rest))
    (hsize : size + byteSize rest' = n + size' + byteSize rest)
    (hroom : byteSize (w ++ '>' :: rest') ≤ size') :
    ∃ items', items = items'.map (Item.relocate (n + ·)) ∧
      readItems size' start' name found (w ++ '>' :: rest') = .ok (items', selfClosing, rest') := by
  -- a tag that ends sooner leaves more
  have hlonger : ∀ {u : Text} {first first' : List Item} {b b' : Bool},
      (Except.ok (first, b, u ++ '>' :: rest) : Except Error _) ≠ .ok (first', b', rest) := by
    intro u first first' b b' heq
    have hlength := congrArg (·.length) (Prod.mk.inj (Prod.mk.inj (Except.ok.inj heq)).2).2
    simp only [List.length_append, List.length_cons] at hlength
    omega
  induction hlength : w.length using Nat.strongRecOn generalizing w found with
  | _ k ih =>
    subst hlength
    have hbytes : byteSize (trimStart w) ≤ byteSize w :=
      byteSize_le_of_suffix (List.dropWhile_suffix _)
    have hlength : (trimStart w).length ≤ w.length := length_trimStart_le w
    cases hw : trimStart w with
    | nil =>
      have hmark : ∀ r, trimStart (w ++ '>' :: r) = '>' :: r := by
        intro r
        rw [trimStart_stop, hw]
        rfl
      rw [readItems_mark _ _ _ _ (hmark rest)] at h
      cases h
      exact ⟨found.reverse, List.map_reverse.symm, readItems_mark _ _ _ _ (hmark rest')⟩
    | cons c u =>
      have htrim : ∀ r, trimStart (w ++ '>' :: r) = c :: (u ++ '>' :: r) := by
        intro r
        rw [trimStart_stop, hw]
        rfl
      rw [hw, byteSize_cons] at hbytes
      rw [hw, List.length_cons] at hlength
      rw [byteSize_append, byteSize_cons] at hroom
      by_cases hmark : c = '>'
      · subst hmark
        rw [readItems_mark _ _ _ _ (htrim rest)] at h
        exact (hlonger h).elim
      by_cases hslash : c = '/'
      · subst hslash
        cases u with
        | nil =>
          rw [readItems_selfClosing (htrim rest)] at h
          cases h
          exact ⟨found.reverse, List.map_reverse.symm, readItems_selfClosing (htrim rest')⟩
        | cons d u =>
          by_cases hd : d = '>'
          · subst hd
            rw [readItems_selfClosing (htrim rest)] at h
            exact (hlonger h).elim
          · have hhead : ∀ r, headIs (· = '>') (d :: u ++ '>' :: r) = false :=
              fun r => decide_eq_false hd
            rw [readItems_slash (htrim rest) (hhead rest)] at h
            rw [readItems_slash (htrim rest') (hhead rest')]
            refine ih _ (Nat.lt_of_succ_le hlength) h ?_ rfl
            simp only [byteSize_append, byteSize_cons] at hbytes ⊢
            omega
      · -- the item is read in the same way, and stands where it stood but for the distance
        have hname : ∀ r,
            (u ++ '>' :: r).dropWhile isItemChar = u.dropWhile isItemChar ++ '>' :: r :=
          fun r => dropWhile_stop u r rfl
        have hchars : ∀ r, (u ++ '>' :: r).takeWhile isItemChar = u.takeWhile isItemChar :=
          fun r => takeWhile_stop u r rfl
        rw [readItems_other (htrim rest) hslash hmark, hname, hchars] at h
        cases hread : readAssignment? (u.dropWhile isItemChar ++ '>' :: rest) with
        | none =>
          rw [hread] at h
          cases h
        | some read =>
          obtain ⟨value, behind⟩ := read
          rw [hread] at h
          dsimp only at h
          have hlt := (mark_suffix_of_readItems h).length_le
          obtain ⟨x, rfl, hx, helsewhere⟩ := readAssignment?_elsewhere hread hlt
          have hsuffix : x <:+ u := hx.trans (List.dropWhile_suffix _)
          have hbytes' := byteSize_le_of_suffix hsuffix
          have hlength' := hsuffix.length_le
          rw [readItems_other (htrim rest') hslash hmark, hname, hchars, helsewhere]
          have hspan : (⟨size - byteSize (c :: (u ++ '>' :: rest)),
                size - byteSize (x ++ '>' :: rest)⟩ : Span) =
              Span.relocate (n + ·) ⟨size' - byteSize (c :: (u ++ '>' :: rest')),
                size' - byteSize (x ++ '>' :: rest')⟩ := by
            simp only [Span.relocate, byteSize_cons, byteSize_append, Span.mk.injEq]
            omega
          rw [hspan, ← Item.relocate_ofText, ← List.map_cons] at h
          refine ih _ (by omega) h ?_ rfl
          rw [byteSize_append, byteSize_cons]
          omega

end Items

/-! ## Opening tags -/

namespace Passage

section Opening

variable {n start : Nat} {rest rest' opening : Text} {tag : Tag} {selfClosing : Bool}

/-- How an opening tag is read. -/
theorem IsOpening.parts (h : IsOpening start rest opening tag selfClosing) :
    ∃ w, opening = '<' :: (w ++ ['>']) ∧ headIs Char.isAlpha w ∧
      tag.name = w.takeWhile isNameChar ∧ tag.kind = .ofName tag.name ∧
      readItems (start + byteSize (opening ++ rest)) start tag.name []
        (w.dropWhile isNameChar ++ '>' :: rest) = .ok (tag.items, selfClosing, rest) := by
  obtain ⟨written, rfl, halpha, hread⟩ := h
  rw [readOpening] at hread
  split at hread
  · cases hread
  · rename_i items closes behind hitems
    obtain ⟨htoken, hbehind⟩ := Lexeme.token.inj hread
    obtain ⟨rfl, hcloses, -⟩ := Token.opening.inj htoken
    rw [hbehind, hcloses] at hitems
    obtain ⟨w, hw⟩ := (mark_suffix_of_readItems hitems).trans (List.dropWhile_suffix _)
    have hclosed : (w ++ ['>']) ++ rest = written ++ rest := by simpa using hw
    obtain rfl := List.append_cancel_right hclosed
    have hname : (w ++ ['>'] ++ rest).takeWhile isNameChar = w.takeWhile isNameChar := by
      rw [← hw, takeWhile_stop _ _ rfl]
    have hbehind : (w ++ ['>'] ++ rest).dropWhile isNameChar =
        w.dropWhile isNameChar ++ '>' :: rest := by
      rw [← hw, dropWhile_stop _ _ rfl]
    rw [hname, hbehind] at hitems
    refine ⟨w, rfl, ?_, hname, rfl, ?_⟩
    · cases w with
      | nil => cases halpha
      | cons c w => exact halpha
    · rw [hname]
      exact hitems

/-- An opening tag is the same tag elsewhere, with its items moved. -/
theorem IsOpening.elsewhere (h : IsOpening (n + start) rest opening tag selfClosing)
    (rest' : Text) :
    ∃ tag', tag = tag'.relocate (n + ·) ∧ IsOpening start rest' opening tag' selfClosing := by
  obtain ⟨w, rfl, halpha, hname, hkind, hitems⟩ := h.parts
  have hdrop : byteSize (w.dropWhile isNameChar) ≤ byteSize w :=
    byteSize_le_of_suffix (List.dropWhile_suffix _)
  let opening : Text := '<' :: (w ++ ['>'])
  have hsize : n + start + byteSize (opening ++ rest) + byteSize rest' =
      n + (start + byteSize (opening ++ rest')) + byteSize rest := by
    simp only [byteSize_append]
    omega
  have hroom : byteSize (w.dropWhile isNameChar ++ '>' :: rest') ≤
      start + byteSize (opening ++ rest') := by
    simp only [opening, byteSize_append, byteSize_cons]
    omega
  obtain ⟨items, hmoved, hread⟩ : ∃ items, tag.items = items.map (Item.relocate (n + ·)) ∧
      readItems (start + byteSize (opening ++ rest')) start tag.name []
        (w.dropWhile isNameChar ++ '>' :: rest') = .ok (items, selfClosing, rest') :=
    readItems_elsewhere start rest' hitems hsize hroom
  refine ⟨⟨tag.name, tag.kind, items⟩, ?_, w ++ ['>'], rfl, ?_, ?_⟩
  · cases tag
    exact congrArg _ hmoved
  · cases w with
    | nil => cases halpha
    | cons c w => exact halpha
  · have htake : (w ++ ['>'] ++ rest').takeWhile isNameChar = tag.name := by
      rw [List.append_assoc, List.singleton_append, takeWhile_stop _ _ rfl, hname]
    have hbehind : (w ++ ['>'] ++ rest').dropWhile isNameChar =
        w.dropWhile isNameChar ++ '>' :: rest' := by
      rw [List.append_assoc, List.singleton_append, dropWhile_stop _ _ rfl]
    rw [readOpening, htake, hbehind, hread]
    dsimp only
    rw [← hkind, stop_eq rfl]

end Opening

end Passage

end ModuleServer.Template
