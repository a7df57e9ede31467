import ModuleServer.Proofs.Render.Written

/-!
# Object literals

The code of a node holds object literals: the props of elements, one for each run of entries between
spread objects, and the slots of components. `VNode.literals` lists them with their entries, and
each of them is written in the code (`mem_literals_infix`).
-/

namespace ModuleServer.Render

open Text Template

/-! ## Runs of entries -/

/-- The runs of entries between spread objects, `run` being the entries of the first, from its end
on. A run without entries is left out. -/
def Part.runs (run : List (Text × Value)) : List Part → List (List (Text × Value))
  | [] => if run.isEmpty then [] else [run.reverse]
  | .entry key value :: rest => Part.runs ((key, value) :: run) rest
  | .spread _ :: rest => (if run.isEmpty then [] else [run.reverse]) ++ Part.runs [] rest

/-- An entry as written. -/
def printEntry (entry : Text × Value) : Text :=
  Script.key entry.1 ++ [':', ' '] ++ entry.2.print

section Runs

variable {run entries : List (Text × Value)} {parts : List Part}

/-- Each run is written as an object. -/
theorem mem_arguments (depth : Nat) (h : entries ∈ Part.runs run parts) :
    object depth (entries.map printEntry) ∈
      Part.arguments depth (run.map printEntry) parts := by
  have hrun : entries ∈ (if run.isEmpty then [] else [run.reverse]) →
      object depth (entries.map printEntry) ∈
        if (run.map printEntry).isEmpty then [] else
          [object depth (run.map printEntry).reverse] := by
    intro h
    rw [List.isEmpty_map]
    cases hempty : run.isEmpty with
    | true =>
      rw [hempty] at h
      cases h
    | false =>
      rw [hempty] at h
      obtain rfl := List.mem_singleton.1 h
      rw [List.map_reverse]
      exact List.mem_singleton.2 rfl
  induction parts generalizing run with
  | nil => exact hrun h
  | cons part rest ih =>
    cases part with
    | entry key value =>
      refine ih h fun h => ?_
      obtain rfl := List.mem_singleton.1 h
      simp
    | spread exp =>
      rw [Part.runs, List.mem_append] at h
      rw [Part.arguments, List.mem_append]
      rcases h with h | h
      · exact .inl (hrun h)
      · exact .inr (List.mem_cons_of_mem _ (ih h fun h => nomatch h))

/-- Without spread objects there is one object at most. -/
theorem length_arguments_le (depth : Nat) (texts : List Text)
    (h : parts.any Part.isSpread = false) : (Part.arguments depth texts parts).length ≤ 1 := by
  induction parts generalizing texts with
  | nil =>
    rw [Part.arguments]
    split <;> simp
  | cons part rest ih =>
    rw [List.any_cons, Bool.or_eq_false_iff] at h
    cases part with
    | entry key value => exact ih _ h.2
    | spread exp => exact absurd h.1.symm Bool.false_ne_true

/-- The object of each run stands in the props. -/
theorem exists_print? (depth : Nat) {props : List Assignment}
    (h : entries ∈ Part.runs [] (Assignment.parts props)) :
    ∃ text, Assignment.print? depth props = some text ∧
      object depth (entries.map printEntry) <:+: text := by
  have hmem := mem_arguments depth h
  rw [List.map_nil] at hmem
  rw [Assignment.print?]
  cases hspread : (Assignment.parts props).any Part.isSpread with
  | true => exact ⟨_, rfl, infix_call _ hmem⟩
  | false =>
    have hlength := length_arguments_le depth [] hspread
    generalize Part.arguments depth [] (Assignment.parts props) = arguments at hmem hlength
    match arguments, hmem, hlength with
    | [argument], hmem, _ =>
      obtain rfl := List.mem_singleton.1 hmem
      exact ⟨_, rfl, List.infix_rfl⟩

end Runs

/-! ## Literals -/

/-- An object literal of a node. -/
inductive ObjectLiteral where
  /-- Props that stand together. -/
  | props (entries : List (Text × Value))
  /-- The slots of a component. -/
  | slots (passed : List (Slot VNode))

/-- The key of the entry that stands behind all slots. -/
def stableKey : Text := ['_']

namespace ObjectLiteral

/-- The keys of an object literal, as written. -/
def keys : ObjectLiteral → List Text
  | props entries => entries.map Prod.fst
  | slots passed => orderSlots (passed.map fun slot => (slot.implicit, slot.name)) ++ [stableKey]

/-- The code of an object literal. -/
def print (depth : Nat) : ObjectLiteral → Text
  | props entries => object depth (entries.map printEntry)
  | slots passed =>
    block '{' '}' depth (orderSlots (VNode.printSlots (depth + 1) passed) ++
      ["_: 1 /* STABLE */".toList])

/-- The object literals of props. -/
def ofProps (assignments : List Assignment) : List ObjectLiteral :=
  (Part.runs [] (Assignment.parts assignments)).map props

/-- The object literal of slots, if there are any. -/
def ofSlots (slots : List (Slot VNode)) : List ObjectLiteral :=
  if slots.isEmpty then [] else [.slots slots]

end ObjectLiteral

mutual

/-- The object literals in the code of a node, apart from empty ones. -/
def VNode.literals : VNode → List ObjectLiteral
  | .text _ => []
  | .leaf _ props => ObjectLiteral.ofProps props
  | .labelled _ props _ => ObjectLiteral.ofProps props
  | .parent _ props children => ObjectLiteral.ofProps props ++ VNode.literalsAll children
  | .component _ props slots =>
    ObjectLiteral.ofProps props ++ (ObjectLiteral.ofSlots slots ++ VNode.literalsSlots slots)
  | .outlet _ props fallback => ObjectLiteral.ofProps props ++ VNode.literalsAll fallback
  | .fragment children => VNode.literalsAll children
  | .list _ _ item => VNode.literals item
  | .chain body => VNode.literals body
  | .choice _ yes no => VNode.literals yes ++ VNode.literals no
  | .hidden => []

/-- The object literals in the code of nodes. -/
def VNode.literalsAll : List VNode → List ObjectLiteral
  | [] => []
  | v :: vs => VNode.literals v ++ VNode.literalsAll vs

/-- The object literals in the code of slots. -/
def VNode.literalsSlots : List (Slot VNode) → List ObjectLiteral
  | [] => []
  | ⟨_, _, children, _⟩ :: slots => VNode.literalsAll children ++ VNode.literalsSlots slots

end

/-! ## Literals in the code -/

/-- At any depth, an object literal is written in the code of a node. -/
def WrittenIn (literal : ObjectLiteral) (v : VNode) : Prop :=
  ∀ depth, ∃ inner, literal.print inner <:+: v.print depth

section Written

variable {literal : ObjectLiteral} {v : VNode} {vs : List VNode}

/-- What is written in a node is written in what holds the node. -/
theorem WrittenIn.hold (h : WrittenIn literal v) (hv : v ∈ vs) (holder : Holder) :
    WrittenIn literal (holder.fill vs) := by
  intro depth
  obtain ⟨inner, hinner⟩ := holder.infix_fill hv depth
  obtain ⟨depth', hliteral⟩ := h inner
  exact ⟨depth', hliteral.trans hinner⟩

/-- What is written in a node is written in the node with something put around it. -/
theorem WrittenIn.wrap (h : WrittenIn literal v) (wrap : Wrap) :
    WrittenIn literal (wrap.fill v) := by
  intro depth
  obtain ⟨inner, hliteral⟩ := h (wrap.innerDepth depth)
  rw [Wrap.print_fill]
  exact ⟨inner, hliteral.trans (List.infix_append _ _ _)⟩

theorem infix_create_props (target props : Text) (content : Option Text) :
    props <:+: create target (some props) content := by
  unfold create
  cases content with
  | none => exact infix_call _ (by simp)
  | some content => exact infix_call _ (by simp)

/-- The props of a node are written in its code, if it is a node with props. -/
theorem writtenIn_of_mem_ofProps {props : List Assignment}
    (h : literal ∈ ObjectLiteral.ofProps props)
    (hv : ∀ depth text, Assignment.print? depth props = some text → text <:+: v.print depth) :
    WrittenIn literal v := by
  obtain ⟨entries, hentries, rfl⟩ := List.mem_map.1 h
  intro depth
  obtain ⟨text, htext, hobject⟩ := exists_print? depth hentries
  exact ⟨depth, hobject.trans (hv depth text htext)⟩

theorem writtenIn_of_mem_ofSlots {slots : List (Slot VNode)} (target : Target)
    (props : List Assignment) (h : literal ∈ ObjectLiteral.ofSlots slots) :
    WrittenIn literal (.component target props slots) := by
  intro depth
  rw [ObjectLiteral.ofSlots] at h
  split at h
  · cases h
  · obtain rfl := List.mem_singleton.1 h
    rename_i hne
    refine ⟨depth, ?_⟩
    have hentries : (VNode.printSlots (depth + 1) slots).isEmpty = false := by
      cases slots with
      | nil => exact absurd rfl hne
      | cons slot slots => rfl
    rw [VNode.print, slotsObject, hentries]
    exact infix_create ..

mutual

/-- Each object literal of a node is written in its code. -/
theorem writtenIn_of_mem : ∀ {v : VNode}, literal ∈ v.literals → WrittenIn literal v
  | .text _, h => nomatch h
  | .leaf _ props, h => by
    refine writtenIn_of_mem_ofProps h fun depth text htext => ?_
    rw [VNode.print, htext]
    exact infix_create_props ..
  | .labelled _ props _, h => by
    refine writtenIn_of_mem_ofProps h fun depth text htext => ?_
    rw [VNode.print, htext]
    exact infix_create_props ..
  | .parent tag props children, h => by
    rcases List.mem_append.1 h with h | h
    · refine writtenIn_of_mem_ofProps h fun depth text htext => ?_
      rw [VNode.print, htext]
      exact infix_create_props ..
    · obtain ⟨v, hv, hwritten⟩ := exists_writtenIn_of_mem h
      exact hwritten.hold hv (.parent tag props)
  | .component target props slots, h => by
    rcases List.mem_append.1 h with h | h
    · refine writtenIn_of_mem_ofProps h fun depth text htext => ?_
      rw [VNode.print, htext]
      exact infix_create_props ..
    rcases List.mem_append.1 h with h | h
    · exact writtenIn_of_mem_ofSlots target props h
    · obtain ⟨before, name, params, implicit, children, behind, rfl, v, hv, hwritten⟩ :=
        exists_writtenIn_of_mem_slots h
      exact hwritten.hold hv (.slot target props before name params implicit behind)
  | .outlet name props fallback, h => by
    rcases List.mem_append.1 h with h | h
    · refine writtenIn_of_mem_ofProps h fun depth text htext => ?_
      rw [VNode.print, htext]
      refine infix_call _ (List.mem_append_right _ ?_)
      split <;> simp
    · obtain ⟨v, hv, hwritten⟩ := exists_writtenIn_of_mem h
      exact hwritten.hold hv (.outlet name props)
  | .fragment children, h => by
    obtain ⟨v, hv, hwritten⟩ := exists_writtenIn_of_mem h
    exact hwritten.hold hv .fragment
  | .list source params item, h => (writtenIn_of_mem (v := item) h).wrap (.list source params)
  | .chain body, h => (writtenIn_of_mem (v := body) h).wrap .chain
  | .choice test yes no, h => by
    rcases List.mem_append.1 h with h | h
    · exact (writtenIn_of_mem h).wrap (.yes test no)
    · exact (writtenIn_of_mem h).wrap (.no test yes)
  | .hidden, h => nomatch h

theorem exists_writtenIn_of_mem : ∀ {vs : List VNode}, literal ∈ VNode.literalsAll vs →
    ∃ v ∈ vs, WrittenIn literal v
  | [], h => nomatch h
  | v :: vs, h => by
    rcases List.mem_append.1 h with h | h
    · exact ⟨v, List.mem_cons_self, writtenIn_of_mem h⟩
    · obtain ⟨v', hv', hwritten⟩ := exists_writtenIn_of_mem h
      exact ⟨v', List.mem_cons_of_mem _ hv', hwritten⟩

theorem exists_writtenIn_of_mem_slots : ∀ {slots : List (Slot VNode)},
    literal ∈ VNode.literalsSlots slots →
    ∃ before name params implicit children behind,
      slots = before ++ ⟨name, params, children, implicit⟩ :: behind ∧
        ∃ v ∈ children, WrittenIn literal v
  | [], h => nomatch h
  | ⟨name, params, children, implicit⟩ :: slots, h => by
    rcases List.mem_append.1 h with h | h
    · exact ⟨[], name, params, implicit, children, slots, rfl, exists_writtenIn_of_mem h⟩
    · obtain ⟨before, name', params', implicit', children', behind, rfl, hwritten⟩ :=
        exists_writtenIn_of_mem_slots h
      exact ⟨_ :: before, name', params', implicit', children', behind, rfl, hwritten⟩

end

/-- Each object literal of the roots is written in the code of a template. -/
theorem mem_literals_infix (mode : Mode) {roots : List VNode}
    (h : literal ∈ VNode.literalsAll roots) :
    ∃ depth, literal.print depth <:+: (RenderCode.ofRoots mode roots).code := by
  obtain ⟨v, hv, hwritten⟩ := exists_writtenIn_of_mem h
  obtain ⟨depth, hdepth⟩ := hwritten 1
  exact ⟨depth, (hdepth.trans (infix_printRoots hv)).trans (infix_code mode roots)⟩

end Written

end ModuleServer.Render
