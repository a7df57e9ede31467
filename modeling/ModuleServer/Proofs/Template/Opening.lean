import Mathlib.Data.List.DropRight
import Mathlib.Tactic.SplitIfs
import ModuleServer.Proofs.Template.Print
import ModuleServer.Proofs.Template.Spelling
import ModuleServer.Proofs.Text.Pieces
import ModuleServer.Proofs.Text.Run

/-!
# Reading references and opening tags back

* `Reference.decode_encode`: a text with references is decoded to the text.
* `Item.ofText_print`: the name and the value of an item write the item.
* `readItems_print`: the items of an opening tag are read up to its closing mark.
-/

namespace ModuleServer.Template

open Text

/-! ## References -/

namespace Reference

theorem isBody_nameOf (c : Char) : IsBody c (nameOf c) := by
  unfold nameOf
  split_ifs with hamp hless hquote
  · exact .named (by simp [names, hamp])
  · exact .named (by simp [names, hless])
  · exact .named (by simp [names, hquote])
  · exact .decimal

/-- A text with references is decoded to the text. -/
theorem decode_encode {written : Text} (hmark : '&' ∈ written) (t : Text) :
    decode (encode written t) = t := by
  induction t with
  | nil => exact decode_nil
  | cons c t ih =>
    have ih : decode (t.flatMap _) = t := ih
    have hspells : Spells c (if written.contains c then '&' :: (nameOf c ++ [';']) else [c]) := by
      split
      · exact .reference (isBody_nameOf c)
      · rename_i hc
        refine .itself ?_
        rintro rfl
        exact hc (List.contains_iff_mem.2 hmark)
    rw [encode, List.flatMap_cons, decode_append_of_spells hspells, ih]

/-- A character that is written as a reference, and that no reference holds, does not occur. -/
theorem not_mem_encode {written : Text} {c : Char} (hc : c ∈ written)
    (hnames : written.all fun d => !('&' :: (nameOf d ++ [';'])).contains c) (t : Text) :
    c ∉ encode written t := by
  rw [encode, List.mem_flatMap]
  rintro ⟨d, -, hd⟩
  by_cases hmem : d ∈ written
  · have hname := List.all_eq_true.1 hnames d hmem
    rw [if_pos (List.contains_iff_mem.2 hmem)] at hd
    rw [List.contains_iff_mem.2 hd] at hname
    exact Bool.noConfusion hname
  · rw [if_neg (mt List.contains_iff_mem.1 hmem), List.mem_singleton] at hd
    exact hmem (hd ▸ hc)

/-- References put no white space in front of a text. -/
theorem headIs_encode {written t : Text} (h : headIs isWhite t = false) :
    headIs isWhite (encode written t) = false := by
  cases t with
  | nil => rfl
  | cons c t =>
    rw [encode, List.flatMap_cons]
    split
    · rfl
    · exact h

/-- References put no white space behind a text. -/
theorem headIs_reverse_encode {written t : Text} (h : headIs isWhite t.reverse = false) :
    headIs isWhite (encode written t).reverse = false := by
  rw [encode, List.reverse_flatMap]
  cases ht : t.reverse with
  | nil => rfl
  | cons c t =>
    rw [ht, headIs] at h
    rw [List.flatMap_cons, Function.comp_apply]
    split
    · rw [List.reverse_cons, List.reverse_append]
      rfl
    · exact h

end Reference

/-! ## Items -/

theorem isItemChar_of_isDirectivePart {t : Text} (h : isDirectivePart t) :
    t ≠ [] ∧ (∀ c ∈ t, isItemChar c) ∧ ∀ c ∈ t, decide (c = '.') = false := by
  simp only [isDirectivePart, Bool.and_eq_true, Bool.not_eq_true', List.all_eq_true,
    decide_eq_true_eq] at h
  exact ⟨by simpa using h.1, fun c hc => (h.2 c hc).1, fun c hc => by simpa using (h.2 c hc).2⟩

/-- An argument and modifiers are read behind the dot or colon that parts them from the name. -/
theorem readArgument_print {arg : Option Text} {modifiers : List Text}
    (harg : arg.all isDirectivePart) (hmodifiers : modifiers.all isDirectivePart) :
    readArgument (arg.getD [] ++ modifiers.flatMap fun m => '.' :: m) = (arg, modifiers) := by
  rw [List.all_eq_true] at hmodifiers
  have hfirst : ∀ c ∈ arg.getD [], decide (c = '.') = false := by
    cases arg with
    | none => simp
    | some arg => exact (isItemChar_of_isDirectivePart harg).2.2
  have hpieces := pieces_flatMap (c := '.') (by decide) hfirst fun m hm =>
    (isItemChar_of_isDirectivePart (hmodifiers m hm)).2.2
  have hkept : modifiers.filter (fun m => !m.isEmpty) = modifiers := by
    rw [List.filter_eq_self]
    intro m hm
    simpa using (isItemChar_of_isDirectivePart (hmodifiers m hm)).1
  -- the text before the first dot is the argument, and empty if there is none
  rw [readArgument, hpieces]
  dsimp only
  rw [hkept]
  cases arg with
  | none => rfl
  | some arg =>
    have hne := (isItemChar_of_isDirectivePart harg).1
    simp [hne]

theorem readDirectiveName?_print {name : Text} {arg : Option Text} {modifiers : List Text}
    (hname : isDirectivePart name) (hcolon : name.all (· ≠ ':')) (harg : arg.all isDirectivePart)
    (hmodifiers : modifiers.all isDirectivePart) :
    readDirectiveName?
      ('v' :: '-' :: (name ++ printArgument arg ++ modifiers.flatMap fun m => '.' :: m)) =
      some (name, arg, modifiers) := by
  have hread := readArgument_print harg hmodifiers
  have hchars : name.all fun c => c ≠ ':' ∧ c ≠ '.' := by
    rw [List.all_eq_true] at hcolon ⊢
    intro c hc
    have hdot := (isItemChar_of_isDirectivePart hname).2.2 c hc
    simp_all
  rw [List.append_assoc, readDirectiveName?]
  cases arg with
  | none =>
    have htail : headIs (fun c => decide (c ≠ ':' ∧ c ≠ '.'))
        (modifiers.flatMap fun m => '.' :: m) = false := by
      cases modifiers <;> simp [headIs]
    rw [printArgument, List.nil_append, takeWhile_run hchars htail, dropWhile_run hchars htail]
    cases modifiers with
    | nil => exact congrArg (fun p => some (name, p)) hread
    | cons m modifiers => exact congrArg (fun p => some (name, p)) hread
  | some arg =>
    have htail : headIs (fun c => decide (c ≠ ':' ∧ c ≠ '.'))
        (':' :: arg ++ modifiers.flatMap fun m => '.' :: m) = false := by
      simp [headIs]
    rw [printArgument, takeWhile_run hchars htail, dropWhile_run hchars htail]
    exact congrArg (fun p => some (name, p)) hread

theorem readDirectiveName?_eq_none {name : Text} (hlong : startsWith ['v', '-'] name = false)
    (hshort : headIs [':', '@', '#'].contains name = false) : readDirectiveName? name = none := by
  rw [readDirectiveName?.eq_def]
  split
  · simp [startsWith, after?] at hlong
  · simp [headIs] at hshort
  · simp [headIs] at hshort
  · simp [headIs] at hshort
  · rfl

/-- The name and the value of an item write the item. -/
theorem Item.ofText_print {item : Item} (h : item.isNormal) (span : Span) :
    (Item.ofText item.nameText item.value? span).erase = item.erase := by
  rcases item with a | d
  · simp only [Item.isNormal, Bool.and_eq_true, Bool.not_eq_true'] at h
    obtain ⟨⟨-, hlong⟩, hshort⟩ := h
    rw [Item.nameText, Item.ofText, readDirectiveName?_eq_none hlong hshort]
    rfl
  · simp only [Item.isNormal, Bool.and_eq_true] at h
    obtain ⟨⟨⟨⟨hname, hcolon⟩, harg⟩, hmodifiers⟩, hexp⟩ := h
    have hvalue : d.exp.filter (fun v => !isWhiteOnly v) = d.exp := by
      cases hd : d.exp with
      | none => rfl
      | some exp =>
        rw [hd] at hexp
        exact Option.filter_some_pos hexp
    rw [Item.nameText, Item.ofText, readDirectiveName?_print hname hcolon harg hmodifiers]
    simp only [Item.value?, Item.erase, hvalue]

/-- The name of an item ends where its value or the next item starts. -/
theorem nameText_cons {item : Item} (h : item.isNormal) :
    ∃ c t, item.nameText = c :: t ∧ isItemChar c ∧ t.all isItemChar := by
  rcases item with a | d
  · simp only [Item.isNormal, Bool.and_eq_true, Bool.not_eq_true'] at h
    obtain ⟨⟨⟨hne, hchars⟩, -⟩, -⟩ := h
    obtain ⟨c, t, ht⟩ := List.exists_cons_of_ne_nil (l := a.name) (by simpa using hne)
    rw [ht, List.all_cons, Bool.and_eq_true] at hchars
    exact ⟨c, t, ht, hchars⟩
  · simp only [Item.isNormal, Bool.and_eq_true, List.all_eq_true] at h
    obtain ⟨⟨⟨⟨hname, -⟩, harg⟩, hmodifiers⟩, -⟩ := h
    refine ⟨'v', _, rfl, by decide, ?_⟩
    have hchars : ∀ t : Text, isDirectivePart t → t.all isItemChar := fun t ht =>
      List.all_eq_true.2 (isItemChar_of_isDirectivePart ht).2.1
    have hcolon : isItemChar ':' := by decide
    have hdot : isItemChar '.' := by decide
    have hmodifiers : (d.modifiers.flatMap fun m => '.' :: m).all isItemChar := by
      simp only [List.all_flatMap, List.all_cons, hdot, Bool.true_and, List.all_eq_true]
      exact fun m hm => List.all_eq_true.1 (hchars m (hmodifiers m hm))
    have harg : (printArgument d.arg).all isItemChar := by
      cases hd : d.arg with
      | none => rfl
      | some arg =>
        rw [hd] at harg
        simp [printArgument, hcolon, hchars arg harg]
    have hdash : isItemChar '-' := by decide
    simp [hdash, hchars _ hname, harg, hmodifiers]

/-- A value is read up to its closing quote. Behind a name alone nothing is read, unless the text
goes on as a value would. -/
theorem readAssignment?_print (value : Option Text) {rest : Text}
    (hrest : headIs (· = '=') (trimStart rest) = false) :
    ∃ rest', readAssignment? (printValue value ++ rest) = some (value, rest') ∧
      trimStart rest' = trimStart rest := by
  cases value with
  | none =>
    refine ⟨trimStart rest, ?_, ?_⟩
    · rw [printValue, List.nil_append, readAssignment?]
      split
      · rename_i heq
        simp [heq, headIs] at hrest
      · rfl
    · exact List.dropWhile_idempotent _ _
  | some value =>
    have hquote : '"' ∉ Reference.encode Reference.inValue value :=
      Reference.not_mem_encode (by decide) (by decide) value
    have hdecode : Reference.decode (Reference.encode Reference.inValue value) = value :=
      Reference.decode_encode (by decide) value
    have hread : readValue? ('"' :: (Reference.encode Reference.inValue value ++ '"' :: rest)) =
        some (Reference.encode Reference.inValue value, rest) := by
      rw [readValue?, if_pos (.inl rfl)]
      exact cut?_append hquote rest
    have hequals : trimStart (printValue (some value) ++ rest) =
        '=' :: '"' :: (Reference.encode Reference.inValue value ++ '"' :: rest) := by
      rw [printValue, List.cons_append, trimStart_cons (by decide), List.cons_append,
        List.append_assoc, List.singleton_append]
    refine ⟨rest, ?_, rfl⟩
    rw [readAssignment?, hequals]
    change (readValue? (trimStart ('"' :: _))).map _ = _
    rw [trimStart_cons (by decide), hread]
    simp only [Option.map_some, hdecode]

/-- What makes a tag one that can be written: its kind, its name, and its items. -/
theorem Tag.parts_of_isNormal {tag : Tag} (h : tag.isNormal) :
    tag.kind = .ofName tag.name ∧ tag.name.all isNameChar ∧ (∀ item ∈ tag.items, item.isNormal) ∧
      ∃ c t, tag.name = c :: t ∧ c.isAlpha := by
  simp only [Tag.isNormal, Bool.and_eq_true, decide_eq_true_eq] at h
  obtain ⟨⟨⟨hkind, halpha⟩, hchars⟩, hitems⟩ := h
  refine ⟨hkind, hchars, List.all_eq_true.1 hitems, ?_⟩
  cases hname : tag.name with
  | nil => simp [hname, headIs] at halpha
  | cons c t =>
    rw [hname] at halpha
    exact ⟨c, t, rfl, halpha⟩

/-- Behind the items of a tag, or before them, stands no character of an item's name. -/
theorem headIs_items (items : List Item) (hitems : ∀ item ∈ items, item.isNormal) (behind : Text) :
    headIs isItemChar (items.flatMap Item.print ++ '>' :: behind) = false ∧
      headIs (· = '=') (trimStart (items.flatMap Item.print ++ '>' :: behind)) = false := by
  cases items with
  | nil =>
    rw [List.flatMap_nil, List.nil_append, trimStart_cons (by decide)]
    exact ⟨rfl, rfl⟩
  | cons item items =>
    obtain ⟨c, u, hname, hc, -⟩ := nameText_cons (hitems item List.mem_cons_self)
    simp only [isItemChar, Bool.not_eq_true', Bool.or_eq_false_iff] at hc
    obtain ⟨⟨⟨hwhite, hequals⟩, -⟩, -⟩ := hc
    refine ⟨rfl, ?_⟩
    rw [List.flatMap_cons, Item.print, hname]
    change headIs _ (trimStart (c :: _)) = false
    rw [trimStart_cons hwhite]
    exact hequals

section Items

variable (size start : Nat) (name : Text) (found : List Item) {t rest : Text}

theorem readItems_mark (ht : trimStart t = '>' :: rest) :
    readItems size start name found t = .ok (found.reverse, false, rest) := by
  rw [readItems]
  split
  · simp_all
  · simp_all
  · rename_i rest' hs
    obtain ⟨-, rfl⟩ := List.cons.inj (ht.symm.trans hs)
    rfl
  · simp_all
  · simp_all

theorem readItems_item {c : Char} {r : Text} {value : Option Text} (hc : isItemChar c)
    (ht : trimStart t = c :: r)
    (hread : readAssignment? (r.dropWhile isItemChar) = some (value, rest)) :
    ∃ span, readItems size start name found t =
      readItems size start name (Item.ofText (c :: r.takeWhile isItemChar) value span :: found)
        rest := by
  -- neither a slash nor the closing mark is a character of an item's name
  have hmark : ∀ {d : Char} {u : Text}, isItemChar d = false → trimStart t ≠ d :: u := by
    intro d u hd hu
    obtain ⟨rfl, -⟩ := List.cons.inj (ht.symm.trans hu)
    exact absurd hc (by simp [hd])
  rw [readItems]
  split
  · rename_i hs
    exact absurd (ht.symm.trans hs) (List.cons_ne_nil _ _)
  · rename_i hs
    exact absurd hs (hmark rfl)
  · rename_i hs
    exact absurd hs (hmark rfl)
  · rename_i hs
    exact absurd hs (hmark rfl)
  · rename_i hs
    obtain ⟨rfl, rfl⟩ := List.cons.inj (ht.symm.trans hs)
    split
    · rename_i hnone
      exact absurd (hread.symm.trans hnone) (Option.some_ne_none _)
    · rename_i hsome
      obtain ⟨rfl, rfl⟩ := Prod.mk.inj (Option.some.inj (hread.symm.trans hsome))
      exact ⟨_, rfl⟩

end Items

/-- The items of an opening tag are read up to its closing mark. -/
theorem readItems_print (size start : Nat) (name : Text) {items : List Item}
    (hitems : ∀ item ∈ items, item.isNormal) (found : List Item) {t behind : Text}
    (ht : trimStart t = trimStart (items.flatMap Item.print ++ '>' :: behind)) :
    ∃ items', readItems size start name found t = .ok (found.reverse ++ items', false, behind) ∧
      items'.map Item.erase = items.map Item.erase := by
  induction items generalizing found t with
  | nil =>
    have hmark : trimStart t = '>' :: behind := by
      rw [ht, List.flatMap_nil, List.nil_append, trimStart_cons (by decide)]
    exact ⟨[], by rw [readItems_mark size start name found hmark, List.append_nil], rfl⟩
  | cons item items ih =>
    obtain ⟨hitem, hitems⟩ := List.forall_mem_cons.1 hitems
    obtain ⟨c, u, hname, hc, hu⟩ := nameText_cons hitem
    obtain ⟨hstop, hequals⟩ := headIs_items items hitems behind
    -- what is left to read, cut behind the name of the first item
    obtain ⟨r, hr⟩ : ∃ r,
        r = printValue item.value? ++ (items.flatMap Item.print ++ '>' :: behind) := ⟨_, rfl⟩
    have htext : trimStart t = c :: (u ++ r) := by
      have hwhite : isWhite c = false := by
        simp only [isItemChar, Bool.not_eq_true', Bool.or_eq_false_iff] at hc
        exact hc.1.1.1
      rw [ht, hr, List.flatMap_cons, Item.print, hname]
      simp only [List.cons_append, List.append_assoc]
      change trimStart (c :: _) = _
      rw [trimStart_cons hwhite]
    have hend : headIs isItemChar r = false := by
      rw [hr]
      cases item.value? with
      | none => exact hstop
      | some value => rfl
    obtain ⟨rest, hread, hrest⟩ := readAssignment?_print item.value? hequals
    rw [← hr, ← dropWhile_run hu hend] at hread
    obtain ⟨span, hfirst⟩ := readItems_item size start name found hc htext hread
    rw [takeWhile_run hu hend, ← hname] at hfirst
    obtain ⟨items', hok, herase⟩ := ih hitems (Item.ofText item.nameText item.value? span :: found)
      hrest
    refine ⟨Item.ofText item.nameText item.value? span :: items', ?_, ?_⟩
    · rw [hfirst, hok, List.reverse_cons, List.append_assoc, List.singleton_append]
    · rw [List.map_cons, List.map_cons, herase, Item.ofText_print hitem]

end ModuleServer.Template
