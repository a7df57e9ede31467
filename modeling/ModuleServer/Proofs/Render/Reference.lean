import ModuleServer.Proofs.Expression.Word
import ModuleServer.Render.Module

/-!
# References

The code of a template refers to the helpers by their local names and to the components by their
variables. These are the words of the code that count here (`references`); there is an equation for
each construct of the code, so the references of what is printed are those of its parts, in order.

A text in which every underscore starts a path of the context has no reference (`IsQuiet`). An
expression without underscores is such a text once it is in the context (`isQuiet_prefixNames?`).
-/

namespace ModuleServer.Render

open Text Expression

/-- What every variable of a component starts with. -/
def variableStart : Text := "_component_".toList

/-- Whether a word refers to a helper or to a component. -/
def isReference (word : Text) : Bool :=
  (Helper.all.map Helper.localName).contains word || startsWith variableStart word

/-- The references in a text, in order. -/
def references (t : Text) : List Text :=
  (words t).filter isReference

section Words

variable {c : Char} {gap s t : Text}

@[simp] theorem references_nil : references [] = [] := by
  decide

theorem references_append_cons (hc : isNameChar c = false) (s t : Text) :
    references (s ++ c :: t) = references s ++ references t := by
  rw [references, words_append_cons hc, List.filter_append]
  rfl

theorem references_cons (hc : isNameChar c = false) (t : Text) :
    references (c :: t) = references t :=
  references_append_cons hc [] t

/-- A gap that no name reaches into has no reference. -/
theorem references_gap (hgap : gap.any isNameChar = false) (t : Text) :
    references (gap ++ t) = references t := by
  induction gap with
  | nil => rfl
  | cons c gap ih =>
    obtain ⟨hc, hgap⟩ := Bool.or_eq_false_iff.1 hgap
    rw [List.cons_append, references_cons hc, ih hgap]

/-- The references in a text are the words of it that refer. -/
theorem mem_references_iff {word : Text} :
    word ∈ references t ↔ IsWordIn word t ∧ isReference word := by
  rw [references, List.mem_filter, mem_words_iff]

theorem references_of_word (ht : t.all isNameChar) (href : isReference t) : references t = [t] := by
  rw [references, words_of_all ht, List.filter_cons_of_pos href, List.filter_nil]

end Words

/-! ## Words that refer -/

theorem all_isNameChar_localName (h : Helper) : h.localName.all isNameChar := by
  cases h <;> decide

theorem isReference_localName (h : Helper) : isReference h.localName := by
  cases h <;> decide

theorem references_localName (h : Helper) : references h.localName = [h.localName] :=
  references_of_word (all_isNameChar_localName h) (isReference_localName h)

theorem all_isNameChar_componentVariable (name : Text) :
    (componentVariable name).all isNameChar := by
  have hstart : "_component_".toList.all isNameChar := by decide
  rw [List.all_eq_true]
  intro c hc
  rcases List.mem_append.1 hc with hc | hc
  · exact List.all_eq_true.1 hstart c hc
  · obtain ⟨d, -, rfl⟩ := List.mem_map.1 hc
    split
    · rename_i hd
      rw [Bool.or_eq_true, decide_eq_true_eq] at hd
      rcases hd with hd | rfl
      · exact isNameChar_of_isAlphanum hd
      · decide
    · decide

theorem isReference_of_startsWith {word : Text} (h : variableStart <+: word) :
    isReference word := by
  obtain ⟨rest, rfl⟩ := h
  rw [isReference, startsWith, after?_append, Option.isSome_some, Bool.or_true]

theorem references_componentVariable (name : Text) :
    references (componentVariable name) = [componentVariable name] :=
  references_of_word (all_isNameChar_componentVariable name)
    (isReference_of_startsWith (List.prefix_append _ _))

/-- A word that refers starts with an underscore, and not as a path of the context does. -/
theorem exists_of_isReference {word : Text} (h : isReference word) :
    ∃ c d rest, word = '_' :: c :: d :: rest ∧ (c ≠ 'c' ∨ d ≠ 't') := by
  rw [isReference, Bool.or_eq_true, List.contains_iff_mem] at h
  rcases h with h | h
  · obtain ⟨helper, -, rfl⟩ := List.mem_map.1 h
    cases helper <;> exact ⟨_, _, _, rfl, by decide⟩
  · obtain ⟨rest, hrest⟩ := Option.isSome_iff_exists.1 h
    obtain rfl := after?_eq_some.1 hrest
    exact ⟨_, _, _, rfl, .inr (by decide)⟩

/-! ## Quiet texts -/

/-- Every underscore of a text starts a path of the context. -/
def IsQuiet (t : Text) : Prop :=
  ∀ before behind, t = before ++ '_' :: behind → "ctx.".toList <+: behind

section Quiet

variable {s t : Text}

theorem isQuiet_of_not_mem (h : '_' ∉ t) : IsQuiet t := by
  rintro before behind rfl
  exact absurd (List.mem_append_right _ (List.mem_cons_self ..)) h

theorem IsQuiet.append (hs : IsQuiet s) (ht : IsQuiet t) : IsQuiet (s ++ t) := by
  intro before behind heq
  rcases List.append_eq_append_iff.1 heq with ⟨middle, rfl, rfl⟩ | ⟨middle, rfl, hcons⟩
  · exact ht middle behind rfl
  · rcases List.cons_eq_append_iff.1 hcons with ⟨rfl, rfl⟩ | ⟨middle, rfl, rfl⟩
    · exact ht [] behind rfl
    · exact (hs before middle rfl).trans (List.prefix_append middle t)

theorem isQuiet_flatMap {α : Type} {f : α → Text} {as : List α} (h : ∀ a ∈ as, IsQuiet (f a)) :
    IsQuiet (as.flatMap f) := by
  induction as with
  | nil => exact isQuiet_of_not_mem List.not_mem_nil
  | cons a as ih =>
    obtain ⟨ha, has⟩ := List.forall_mem_cons.1 h
    exact ha.append (ih has)

theorem references_of_isQuiet (h : IsQuiet t) : references t = [] := by
  rw [references, List.filter_eq_nil_iff]
  intro word hword href
  obtain ⟨-, before, behind, rfl, -, -⟩ := isWordIn_of_mem_words hword
  obtain ⟨c, d, rest, rfl, hne⟩ := exists_of_isReference href
  have hpath := h before (c :: d :: (rest ++ behind)) (by simp)
  simp only [String.reduceToList, List.cons_prefix_cons] at hpath
  rcases hne with hne | hne
  · exact hne hpath.1.symm
  · exact hne hpath.2.1.symm

theorem references_of_not_mem (h : '_' ∉ t) : references t = [] :=
  references_of_isQuiet (isQuiet_of_not_mem h)

/-- What stands in front of a text and has no underscore does not refer to anything. -/
theorem references_behind {c : Char} (hs : '_' ∉ s) (hc : isNameChar c = false) (t : Text) :
    references (s ++ c :: t) = references t := by
  rw [references_append_cons hc, references_of_not_mem hs, List.nil_append]

theorem isQuiet_output {piece : Piece} (h : '_' ∉ piece.source) : IsQuiet piece.output := by
  have hpath : IsQuiet "_ctx.".toList := by
    have hcut : "_ctx.".toList = '_' :: "ctx.".toList := by decide
    rw [hcut]
    rintro (_ | ⟨c, before⟩) behind heq
    · obtain ⟨-, rfl⟩ := List.cons_eq_cons.1 heq
      exact List.prefix_rfl
    · obtain ⟨-, heq⟩ := List.cons_eq_cons.1 heq
      have hmem : '_' ∈ "ctx.".toList := by simp [heq]
      exact absurd hmem (by decide)
  cases piece with
  | verbatim text => exact isQuiet_of_not_mem h
  | name name role =>
    cases role with
    | bound => exact isQuiet_of_not_mem h
    | free => exact hpath.append (isQuiet_of_not_mem h)
    | entry =>
      have hcolon : IsQuiet ": ".toList := isQuiet_of_not_mem (by decide)
      have hcut : ": _ctx.".toList = ": ".toList ++ "_ctx.".toList := by decide
      have hname : IsQuiet name := isQuiet_of_not_mem h
      rw [Piece.output, hcut]
      exact (hname.append (hcolon.append hpath)).append hname

/-- An expression without underscores is quiet in the context. -/
theorem isQuiet_prefixNames? {locals : List Text} {exp : Text} (h : '_' ∉ exp) :
    ∀ e ∈ prefixNames? locals exp, IsQuiet e := by
  intro e he
  obtain ⟨names, -, rfl⟩ := Option.map_eq_some_iff.1 he
  refine isQuiet_flatMap fun piece hpiece => isQuiet_output fun hmem => h ?_
  rw [← flatMap_source_readPieces (names ++ locals) exp]
  exact List.mem_flatMap.2 ⟨piece, hpiece, hmem⟩

end Quiet

/-! ## Brackets and calls -/

section Brackets

variable {t : Text}

theorem references_joined {c : Char} {gap : Text} (hgap : (c :: gap).any isNameChar = false)
    (items : List Text) : references (joined (c :: gap) items) = items.flatMap references := by
  obtain ⟨hc, hrest⟩ := Bool.or_eq_false_iff.1 hgap
  induction items with
  | nil => rfl
  | cons item items ih =>
    cases items with
    | nil => simp [joined]
    | cons next items =>
      rw [joined, List.append_assoc, List.cons_append, references_append_cons hc,
        references_gap hrest, ih]
      rfl

theorem references_separated (items : List Text) :
    references (joined [',', ' '] items) = items.flatMap references :=
  references_joined (by decide) items

theorem references_indent_append (depth : Nat) (t : Text) :
    references (indent depth ++ t) = references t := by
  have hspace : isNameChar ' ' = false := by decide
  refine references_gap (List.any_eq_false.2 fun c hc => ?_) t
  rw [List.eq_of_mem_replicate hc, hspace]
  exact Bool.false_ne_true

theorem references_indent (depth : Nat) : references (indent depth) = [] := by
  rw [← List.append_nil (indent depth), references_indent_append, references_nil]

theorem references_call (function : Text) (items : List Text) :
    references (call function items) = references function ++ items.flatMap references := by
  simp (disch := decide) only [call, List.append_assoc, List.cons_append, List.nil_append,
    references_append_cons, references_nil, List.append_nil, references_separated]

theorem references_helper (helper : Helper) (items : List Text) :
    references (call helper.localName items) = helper.localName :: items.flatMap references := by
  rw [references_call, references_localName, List.singleton_append]

theorem references_shortArray (items : List Text) :
    references (shortArray items) = items.flatMap references := by
  simp (disch := decide) only [shortArray, List.cons_append, List.nil_append,
    references_append_cons, references_cons, references_nil, List.append_nil, references_separated]

theorem references_block {opening closing : Char} (hopening : isNameChar opening = false)
    (hclosing : isNameChar closing = false) (depth : Nat) (items : List Text) :
    references (block opening closing depth items) = items.flatMap references := by
  have hlines : (items.map fun item => indent (depth + 1) ++ item).flatMap references =
      items.flatMap references := by
    rw [List.flatMap_map]
    simp only [references_indent_append]
  have hbreak : isNameChar '
' = false := by decide
  simp only [block, List.append_assoc, List.cons_append, List.nil_append, references_cons hopening,
    references_cons hbreak, references_append_cons hbreak, references_indent_append,
    references_cons hclosing, references_nil, List.append_nil]
  rw [references_joined (by decide), hlines]

theorem references_array (depth : Nat) (items : List Text) :
    references (array depth items) = items.flatMap references := by
  rw [array]
  split
  · rename_i hempty
    rw [List.isEmpty_iff.1 hempty]
    decide
  · exact references_block (by decide) (by decide) depth items

theorem references_object (depth : Nat) (items : List Text) :
    references (object depth items) = items.flatMap references := by
  rw [object]
  split
  · simp (disch := decide) only [List.cons_append, List.nil_append, references_append_cons,
      references_cons, references_nil, List.append_nil, references_separated]
  · exact references_block (by decide) (by decide) depth items

/-- A function of parameters that has no references of its own. -/
theorem references_arrow {params : Text} (hparams : '_' ∉ params) (content : Text) :
    references (['('] ++ params ++ ") => ".toList ++ content) = references content := by
  simp (disch := decide) only [String.reduceToList, List.append_assoc, List.cons_append,
    List.nil_append, references_append_cons, references_cons, references_of_not_mem hparams]

theorem references_create (target : Text) (props content : Option Text) :
    references (create target props content) = Helper.createVNode.localName ::
      (references target ++ references (props.getD []) ++ references (content.getD [])) := by
  have hnull : references ['n', 'u', 'l', 'l'] = [] := references_of_not_mem (by decide)
  unfold create
  rw [references_helper]
  cases props <;> cases content <;> simp [hnull]

theorem references_group (content : Text) : references (group content) =
    Helper.createVNode.localName :: Helper.fragment.localName :: references content := by
  rw [group, references_create, references_localName]
  simp

theorem references_quote (h : '_' ∉ t) : references (Script.quote t) = [] := by
  have hescape : ∀ c, '_' ∈ Script.escape c → c = '_' := by
    intro c hc
    unfold Script.escape at hc
    split_ifs at hc
    case neg => exact (List.mem_singleton.1 hc).symm
    all_goals exact absurd hc (by decide)
  refine references_of_not_mem ?_
  simp only [Script.quote, List.mem_cons, List.mem_append, List.mem_flatMap, List.not_mem_nil,
    or_false, not_or, not_exists, not_and]
  refine ⟨by decide, fun c hc hmem => ?_, by decide⟩
  exact h (hescape c hmem ▸ hc)

theorem references_key (h : '_' ∉ t) : references (Script.key t) = [] := by
  rw [Script.key]
  split
  · exact references_of_not_mem h
  · exact references_quote h

end Brackets

end ModuleServer.Render
