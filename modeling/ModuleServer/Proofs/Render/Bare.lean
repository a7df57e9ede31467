import ModuleServer.Proofs.Render.Given
import ModuleServer.Proofs.Render.Referred

/-!
# Templates without underscores

The code of a template refers to helpers and components by names that start with an underscore. In a
template without underscores in its texts (`nodeTexts`), in which no listener is replaced
(`keepsListeners`), no text that is written into the code refers to anything: such nodes are built
to quiet nodes (`allIn_quietParts`).
-/

namespace ModuleServer.Render

open Text Template

/-! ## Templates without underscores -/

/-- The texts of an item. -/
def itemTexts : Item → List Text
  | .attribute a => a.name :: a.value.toList
  | .directive d => d.name :: (d.arg.toList ++ d.exp.toList ++ d.modifiers)

/-- The texts of a node, apart from those of its children. -/
def nodeTexts : Node → List Text
  | .element tag _ _ => tag.name :: tag.items.flatMap itemTexts
  | .text content _ => [content]
  | .interpolation exp _ => [exp]

/-- The key of an item's listener, if it is one. -/
def listenerKey? : Item → Option Text
  | .attribute _ => none
  | .directive d =>
    if d.name = "on".toList then d.arg.map fun event => heardKey event d else none

/-- The key that an item gives a value to, if it is an attribute or binds a key. -/
def valueKey? : Item → Option Text
  | .attribute a => some a.name
  | .directive d =>
    if d.name = "bind".toList then d.arg.map fun arg => boundKey arg d else none

/-- Whether a later item gives a value to the key of an earlier listener. -/
def replacesListener (earlier later : Item) : Bool :=
  (listenerKey? earlier).any fun key => valueKey? later = some key

/-- Whether no listener of a node is replaced. -/
def keepsListeners : Node → Bool
  | .element tag _ _ => tag.items.Pairwise fun earlier later => !replacesListener earlier later
  | _ => true

mutual

/-- A node and all nodes in it. -/
def nodesWithin : Node → List Node
  | .element tag children span => .element tag children span :: nodesIn children
  | .text content span => [.text content span]
  | .interpolation exp span => [.interpolation exp span]

/-- Nodes and all nodes in them. -/
def nodesIn : List Node → List Node
  | [] => []
  | node :: nodes => nodesWithin node ++ nodesIn nodes

end

theorem mem_nodesWithin_self (node : Node) : node ∈ nodesWithin node := by
  cases node <;> exact List.mem_cons_self ..

theorem mem_nodesIn {node : Node} {nodes : List Node} :
    node ∈ nodesIn nodes ↔ ∃ outer ∈ nodes, node ∈ nodesWithin outer := by
  induction nodes with
  | nil => simp [nodesIn]
  | cons first nodes ih => simp [nodesIn, ih]

theorem mem_nodesIn_of_drawn {node : Node} {nodes : List Node} (h : DrawnIn node nodes) :
    node ∈ nodesIn nodes := by
  induction h with
  | here h => exact mem_nodesIn.2 ⟨_, h, mem_nodesWithin_self _⟩
  | inside h _ _ ih =>
    refine mem_nodesIn.2 ⟨_, h, ?_⟩
    rw [nodesWithin]
    exact List.mem_cons_of_mem _ ih

/-! ## Texts without underscores -/

theorem eq_of_toUpper {c : Char} (h : c.toUpper = '_') : c = '_' := by
  change dite _ _ _ = _ at h
  split at h
  · rename_i hc
    have hcode := congrArg UInt32.toNat (congrArg Char.val h)
    have hshift : ('A'.val - 'a'.val).toNat = 2 ^ 32 - 32 := by decide
    have hunderscore : '_'.val.toNat = 95 := rfl
    have hfirst : 'a'.val.toNat = 97 := rfl
    have hlast : 'z'.val.toNat = 122 := rfl
    rw [UInt32.toNat_add] at hcode
    simp only [UInt32.le_iff_toNat_le] at hc
    omega
  · exact h

theorem not_mem_camelizeFrom {t : Text} (h : '_' ∉ t) (afterHyphen : Bool) :
    '_' ∉ camelizeFrom afterHyphen t := by
  induction t generalizing afterHyphen with
  | nil => exact List.not_mem_nil
  | cons c t ih =>
    obtain ⟨hc, ht⟩ := not_or.1 (mt List.mem_cons.2 h)
    rw [camelizeFrom]
    split
    · exact ih ht true
    · refine List.not_mem_cons_of_ne_of_not_mem (fun heq => hc ?_) (ih ht false)
      split at heq
      · exact (eq_of_toUpper heq.symm).symm
      · exact heq

theorem not_mem_capitalize {t : Text} (h : '_' ∉ t) : '_' ∉ capitalize t := by
  cases t with
  | nil => exact List.not_mem_nil
  | cons c t =>
    obtain ⟨hc, ht⟩ := not_or.1 (mt List.mem_cons.2 h)
    exact List.not_mem_cons_of_ne_of_not_mem (fun heq => hc (eq_of_toUpper heq.symm).symm) ht

theorem trim_subset (t : Text) : trim t ⊆ t := by
  obtain ⟨first, last, ht, -, -⟩ := Script.exists_trim t
  intro c hc
  rw [ht]
  exact List.mem_append_left _ (List.mem_append_right _ hc)

theorem unwrap_subset (t : Text) : unwrap t ⊆ t := by
  rw [unwrap.eq_def]
  split
  · rename_i r
    split
    · rename_i inner hinner
      intro c hc
      have hmem : c ∈ r.reverse := hinner ▸ List.mem_cons_of_mem _ (List.mem_reverse.1 hc)
      exact List.mem_cons_of_mem _ (List.mem_reverse.1 hmem)
    · exact List.Subset.refl _
  · exact List.Subset.refl _

theorem subset_of_after? {word t rest : Text} (h : after? word t = some rest) : rest ⊆ t := by
  rw [after?_eq_some.1 h]
  exact List.subset_append_right _ _

theorem subset_of_cutLoop? {t names source : Text} (h : cutLoop? t = some (names, source)) :
    names ⊆ t ∧ source ⊆ t := by
  induction t generalizing names with
  | nil => cases h
  | cons c t ih =>
    rw [cutLoop?] at h
    split at h
    · rename_i rest hin
      cases h
      exact ⟨List.nil_subset _, subset_of_after? hin⟩
    · rename_i rest _ hof
      cases h
      exact ⟨List.nil_subset _, subset_of_after? hof⟩
    · obtain ⟨⟨names', source'⟩, hcut, heq⟩ := Option.map_eq_some_iff.1 h
      cases heq
      obtain ⟨hnames, hsource⟩ := ih hcut
      exact ⟨List.cons_subset_cons c hnames, List.subset_cons_of_subset c hsource⟩

theorem subset_of_readLoop? {exp names source : Text} (h : readLoop? exp = some (names, source)) :
    names ⊆ exp ∧ source ⊆ exp := by
  rw [readLoop?] at h
  split at h
  · cases h
  · rename_i first last hcut
    split at h
    · cases h
    · cases h
      obtain ⟨hnames, hsource⟩ := subset_of_cutLoop? hcut
      refine ⟨List.Subset.trans (trim_subset _) ?_, List.Subset.trans (trim_subset _) hsource⟩
      exact List.Subset.trans (unwrap_subset _) (List.Subset.trans (trim_subset _) hnames)

/-! ## Tags without underscores -/

section Tags

variable {locals skipped : List Text} {item : Item} {tag : Tag} {span : Span} {t e : Text}

theorem references_inContext (h : '_' ∉ t) (he : inContext locals t = .ok e) :
    references e = [] :=
  references_of_isQuiet (isQuiet_prefixNames? h e (inContext_eq_ok.1 he))

theorem references_react {exp : Option Text} {reaction : Reaction}
    (h : ∀ t, exp = some t → '_' ∉ t) (hreact : react locals exp = .ok reaction) :
    references reaction.print = [] := by
  rcases react_cases hreact with rfl | ⟨written, bound, e, rfl, he, hreaction⟩
  · exact references_of_not_mem (by decide)
  have hbare : '_' ∉ trim written := fun hmem => h written rfl (trim_subset written hmem)
  have hquiet := references_inContext hbare he
  rcases hreaction with rfl | rfl
  · exact hquiet
  · rw [references_evaluate, hquiet]

/-- What an item without underscores contributes is quiet. -/
theorem isQuiet_of_contributes {a : Assignment} (h : ∀ t ∈ itemTexts item, '_' ∉ t)
    (hcontributes : Contributes locals skipped item (some a)) : a.IsQuiet := by
  cases hcontributes with
  | plain a hkept =>
    obtain ⟨hname, hvalue⟩ := List.forall_mem_cons.1 h
    refine ⟨hname, ?_, rfl⟩
    cases hgiven : a.value with
    | none => exact List.not_mem_nil
    | some value => exact hvalue value (by simp [hgiven])
  | @bind d arg e hname harg hkept he =>
    have hkey : '_' ∉ arg := h arg (by simp [itemTexts, harg])
    have hexp : '_' ∉ d.exp.getD (camelize arg) := by
      cases hgiven : d.exp with
      | none => exact not_mem_camelizeFrom hkey false
      | some exp => exact h exp (by simp [itemTexts, hgiven])
    refine ⟨?_, references_inContext hexp he, rfl⟩
    rw [boundKey]
    split
    · exact not_mem_camelizeFrom hkey false
    · exact hkey
  | @spread d exp e hname harg hexp he =>
    exact references_inContext (h exp (by simp [itemTexts, hexp])) he
  | @listener d event reaction hname harg hreact =>
    have hevent : '_' ∉ event := h event (by simp [itemTexts, harg])
    have hmodifiers : ∀ m ∈ d.modifiers, '_' ∉ m := fun m hm => h m (by simp [itemTexts, hm])
    have hreaction : references reaction.print = [] :=
      references_react (fun t ht => h t (by simp [itemTexts, ht])) hreact
    refine ⟨?_, hreaction, fun m hm => ?_⟩
    · have hoptions : '_' ∉ (d.modifiers.filter optionModifiers.contains).flatMap capitalize := by
        rw [List.mem_flatMap]
        rintro ⟨m, hm, hmem⟩
        exact not_mem_capitalize (hmodifiers m (List.mem_filter.1 hm).1) hmem
      have hkey : '_' ∉ listenerKey event := by
        have hevent' := not_mem_capitalize (not_mem_camelizeFrom hevent false)
        exact List.not_mem_cons_of_ne_of_not_mem (by decide)
          (List.not_mem_cons_of_ne_of_not_mem (by decide) hevent')
      exact fun hmem => (List.mem_append.1 hmem).elim hkey hoptions
    · have hother : m ∈ otherModifiers d := by
        rcases List.mem_append.1 hm with hm | hm <;> exact (List.mem_filter.1 hm).1
      exact hmodifiers m (List.mem_filter.1 hother).1
  | @markup d exp e hname hexp he =>
    have hkey : '_' ∉ "innerHTML".toList := by decide
    exact ⟨hkey, references_inContext (h exp (by simp [itemTexts, hexp])) he⟩

theorem listenerKey?_of_contributes {key : Text} {value : Value} (hhelpers : value.helpers ≠ [])
    (h : Contributes locals skipped item (some (.append key value))) :
    listenerKey? item = some key := by
  cases h with
  | listener hname harg hreact => rw [listenerKey?, if_pos hname, harg, Option.map_some]
  | markup hname hexp he => exact absurd rfl hhelpers

theorem valueKey?_of_contributes {key : Text} {value : Value}
    (h : Contributes locals skipped item (some (.set key value))) : valueKey? item = some key := by
  cases h with
  | plain a hkept => rfl
  | bind hname harg hkept he => rw [valueKey?, if_pos hname, harg, Option.map_some]

/-- The items of a tag without underscores contribute quiet props. -/
theorem areQuiet_of_assignments {items : List Item} {skipped : List Text}
    {props : List Assignment} (h : ∀ item ∈ items, ∀ t ∈ itemTexts item, '_' ∉ t)
    (hkeeps : items.Pairwise fun earlier later => !replacesListener earlier later)
    (hprops : assignments locals skipped items = .ok props) : AreQuiet props := by
  refine ⟨fun a ha => ?_, pairwise_of_assignments (fun hi hj hkeep => ?_) hprops hkeeps⟩
  · obtain ⟨item, hitem, hcontributes⟩ := exists_contributes hprops a ha
    exact isQuiet_of_contributes (h item hitem) hcontributes
  · rintro key value new rfl hhelpers rfl
    rw [replacesListener, listenerKey?_of_contributes hhelpers hi, valueKey?_of_contributes hj]
      at hkeep
    simp at hkeep

theorem references_keyValue? {items : List Item} {key valueless : Text} {v : Value}
    (h : ∀ item ∈ items, ∀ t ∈ itemTexts item, '_' ∉ t) (hvalueless : '_' ∉ valueless)
    (hkey : keyValue? locals key valueless items = .ok (some v)) :
    v.IsQuiet ∧ references v.print = [] := by
  rcases keyValue?_cases hkey with ⟨a, ha, rfl⟩ | ⟨d, exp, e, hd, -, hexp, he, rfl⟩
  · have hvalue : '_' ∉ a.value.getD valueless := by
      cases hgiven : a.value with
      | none => exact hvalueless
      | some value => exact h _ ha value (by simp [itemTexts, hgiven])
    exact ⟨hvalue, references_quote hvalue⟩
  · have hquiet := references_inContext (h _ hd exp (by simp [itemTexts, hexp])) he
    exact ⟨hquiet, hquiet⟩

variable (h : ∀ item ∈ tag.items, ∀ t ∈ itemTexts item, '_' ∉ t)
include h

theorem not_mem_expression {d : Directive} {exp : Text} (hd : .directive d ∈ tag.items)
    (hexp : d.exp = some exp) : '_' ∉ exp :=
  h _ hd _ (by simp [itemTexts, hexp])

theorem not_mem_slotName {d : Directive} (hd : .directive d ∈ tag.items) :
    '_' ∉ d.arg.getD "default".toList := by
  cases harg : d.arg with
  | none => decide
  | some arg => exact h _ hd _ (by simp [itemTexts, harg])

theorem not_mem_slotParams : '_' ∉ slotParams tag := by
  rcases slotParams_cases tag with hnone | ⟨d, exp, hd, -, hexp, hsome⟩
  · rw [hnone]
    exact List.not_mem_nil
  · rw [hsome]
    exact fun hmem => not_mem_expression h hd hexp (trim_subset exp hmem)

theorem quiet_loopOf {source names : Text}
    (hloop : loopOf locals tag = .ok (some (source, names))) :
    references source = [] ∧ '_' ∉ names := by
  obtain ⟨d, exp, written, hd, -, hexp, hread, he⟩ := loopOf_cases hloop
  obtain ⟨hnames, hsource⟩ := subset_of_readLoop? hread
  have hbare := not_mem_expression h hd hexp
  exact ⟨references_inContext (fun hmem => hbare (hsource hmem)) he,
    fun hmem => hbare (hnames hmem)⟩

/-- A tag without underscores, in which no listener is replaced, gives quiet parts. -/
theorem tagGives_quietParts (hname : '_' ∉ tag.name)
    (hkeeps : tag.items.Pairwise fun earlier later => !replacesListener earlier later) :
    TagGives quietParts tag span where
  name _ := hname
  props := areQuiet_of_assignments h hkeeps
  label hd hexp he :=
    references_inContext (not_mem_expression h (mem_of_directive? hd).1 (required_eq_ok.1 hexp)) he
  target _ htarget := by
    rcases buildTarget_cases htarget with ⟨-, rfl⟩ | ⟨v, hv, rfl⟩
    · trivial
    · exact (references_keyValue? h List.not_mem_nil hv).2
  slot hd := ⟨not_mem_slotName h (mem_of_directive? hd).1, not_mem_slotParams h⟩
  ownSlot := ⟨by decide, not_mem_slotParams h⟩
  outlet {_ name} hfound := by
    have hdefault : '_' ∉ "default".toList := by decide
    cases name with
    | none => exact hdefault
    | some v => exact (references_keyValue? h hdefault hfound).1
  loop := quiet_loopOf h
  test htest := by
    obtain ⟨d, exp, hd, -, hexp, he⟩ := testOf_cases htest
    exact references_inContext (not_mem_expression h hd hexp) he

end Tags

/-- Nodes without underscores, in which no listener is replaced, are built to quiet nodes. -/
theorem allIn_quietParts {nodes : List Node} {roots : List VNode}
    (hbare : ∀ node ∈ nodesIn nodes, ∀ t ∈ nodeTexts node, '_' ∉ t)
    (hkeeps : ∀ node ∈ nodesIn nodes, keepsListeners node)
    (hbuild : buildTemplate nodes = .ok roots) : VNode.AllIn quietParts roots := by
  refine all_of_drawn (fun node hdrawn => ?_) hbuild
  have hmem := mem_nodesIn_of_drawn hdrawn
  have htexts := hbare node hmem
  cases node with
  | element tag children span =>
    obtain ⟨hname, hitems⟩ := List.forall_mem_cons.1 htexts
    have hpairs := of_decide_eq_true (hkeeps _ hmem)
    refine tagGives_quietParts (fun item hitem t ht => ?_) hname hpairs
    exact hitems t (List.mem_flatMap.2 ⟨item, hitem, ht⟩)
  | text content span => exact htexts content (List.mem_singleton.2 rfl)
  | interpolation exp span =>
    exact fun _ _ he => references_inContext (htexts exp (List.mem_singleton.2 rfl)) he

end ModuleServer.Render
