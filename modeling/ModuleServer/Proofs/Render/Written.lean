import ModuleServer.Proofs.Render.Place

/-!
# What is written inside of what

The code of a node holds the codes of the nodes inside of it. What is put around a node is written
in front of its code and behind it (`Wrap.print_fillAll`), and a node at a spot is written somewhere
in the code of the template (`Spot.infix_code`).
-/

namespace ModuleServer.Render

open Text Template

/-! ## Texts -/

section Texts

variable {item : Text} {items : List Text}

theorem infix_joined (separator : Text) (h : item ∈ items) : item <:+: joined separator items := by
  induction items with
  | nil => cases h
  | cons first items ih =>
    cases items with
    | nil =>
      obtain rfl := List.mem_singleton.1 h
      exact List.infix_rfl
    | cons second items =>
      rw [joined]
      rcases List.mem_cons.1 h with rfl | h
      · rw [List.append_assoc]
        exact (List.prefix_append _ _).isInfix
      · exact (ih h).trans (List.suffix_append _ _).isInfix

theorem infix_call (function : Text) (h : item ∈ items) : item <:+: call function items :=
  (infix_joined _ h).trans (List.infix_append _ _ _)

theorem infix_block (opening closing : Char) (depth : Nat) (h : item ∈ items) :
    item <:+: block opening closing depth items := by
  have hline : indent (depth + 1) ++ item ∈ items.map fun item => indent (depth + 1) ++ item :=
    List.mem_map.2 ⟨item, h, rfl⟩
  have hitem : item <:+: indent (depth + 1) ++ item := (List.suffix_append _ _).isInfix
  rw [block, List.append_assoc _ ['\n'], List.append_assoc _ (['\n'] ++ _)]
  exact (hitem.trans (infix_joined _ hline)).trans (List.infix_append _ _ _)

theorem infix_array (depth : Nat) (h : item ∈ items) : item <:+: array depth items := by
  have hne : items.isEmpty = false := by
    cases items with
    | nil => cases h
    | cons => rfl
  rw [array, hne]
  exact infix_block _ _ depth h

theorem infix_create (target : Text) (props : Option Text) (content : Text) :
    content <:+: create target props (some content) := by
  unfold create
  cases props with
  | none => exact infix_call _ (by simp)
  | some props => exact infix_call _ (by simp)

theorem infix_group (content : Text) : content <:+: group content :=
  infix_create ..

end Texts

/-! ## Around a node -/

namespace Wrap

/-- What is written in front of a node for what is put around it. -/
def opening (depth : Nat) : Wrap → Text
  | .chain => []
  | .yes test _ => ['('] ++ test ++ [')', '\n'] ++ indent depth ++ ['?', ' ']
  | .no test other =>
    ['('] ++ test ++ [')', '\n'] ++ indent depth ++ ['?', ' '] ++ other.print depth ++ ['\n'] ++
      indent depth ++ [':', ' ']
  | .list source names =>
    Helper.createVNode.localName ++ ['('] ++ Helper.fragment.localName ++ ", null, ".toList ++
      Helper.renderList.localName ++ ['('] ++ source ++ [',', ' '] ++ ['('] ++ names ++
      ") => \x7b\n".toList ++ indent (depth + 1) ++ "return ".toList

/-- What is written behind it. -/
def closing (depth : Nat) : Wrap → Text
  | .chain => []
  | .yes _ other => ['\n'] ++ indent depth ++ [':', ' '] ++ other.print depth
  | .no _ _ => []
  | .list _ _ => ['\n'] ++ indent depth ++ ['}', ')', ')']

/-- The depth at which the node is written. -/
def innerDepth (depth : Nat) : Wrap → Nat
  | .chain => depth + 1
  | .yes _ _ => depth
  | .no _ _ => depth
  | .list _ _ => depth + 1

/-- What is written in front of a node for all that is put around it. -/
def openings (depth : Nat) : List Wrap → Text
  | [] => []
  | wrap :: wraps => wrap.opening depth ++ openings (wrap.innerDepth depth) wraps

/-- What is written behind it. -/
def closings (depth : Nat) : List Wrap → Text
  | [] => []
  | wrap :: wraps => closings (wrap.innerDepth depth) wraps ++ wrap.closing depth

/-- The depth at which a node is written inside of all that is put around it. -/
def innermostDepth (depth : Nat) : List Wrap → Nat
  | [] => depth
  | wrap :: wraps => innermostDepth (wrap.innerDepth depth) wraps

theorem print_fill (wrap : Wrap) (v : VNode) (depth : Nat) :
    (wrap.fill v).print depth =
      wrap.opening depth ++ v.print (wrap.innerDepth depth) ++ wrap.closing depth := by
  cases wrap with
  | chain => simp [fill, VNode.print, opening, innerDepth, closing]
  | yes test other => simp [fill, VNode.print, opening, innerDepth, closing]
  | no test other => simp [fill, VNode.print, opening, innerDepth, closing]
  | list source names =>
    simp [fill, VNode.print, opening, innerDepth, closing, group, create, call, joined]

/-- A node is written between what is put around it. -/
theorem print_fillAll (wraps : List Wrap) (v : VNode) (depth : Nat) :
    (fillAll wraps v).print depth =
      openings depth wraps ++ v.print (innermostDepth depth wraps) ++ closings depth wraps := by
  induction wraps generalizing depth with
  | nil => simp [fillAll, openings, innermostDepth, closings]
  | cons wrap wraps ih =>
    have hcons : fillAll (wrap :: wraps) v = wrap.fill (fillAll wraps v) := rfl
    rw [hcons, print_fill, ih]
    simp only [openings, innermostDepth, closings, List.append_assoc]

end Wrap

/-! ## Around nodes -/

theorem printAll_eq_map (depth : Nat) (vs : List VNode) :
    VNode.printAll depth vs = vs.map (VNode.print depth) := by
  induction vs with
  | nil => rfl
  | cons v vs ih => rw [VNode.printAll, ih, List.map_cons]

section Nodes

variable {v : VNode} {vs : List VNode}

theorem infix_nodes (h : v ∈ vs) (depth : Nat) :
    v.print depth <:+: array depth (VNode.printAll depth vs) := by
  rw [printAll_eq_map]
  exact infix_array depth (List.mem_map_of_mem h)

theorem mem_orderSlots {entries : List (Bool × Text)} {entry : Bool × Text} (h : entry ∈ entries) :
    entry.2 ∈ orderSlots entries := by
  obtain ⟨implicit, text⟩ := entry
  rw [orderSlots, List.mem_append]
  cases implicit with
  | true => exact .inl (List.mem_map.2 ⟨_, List.mem_filter.2 ⟨h, rfl⟩, rfl⟩)
  | false => exact .inr (List.mem_map.2 ⟨_, List.mem_filter.2 ⟨h, rfl⟩, rfl⟩)

theorem printSlots_append (depth : Nat) (slots slots' : List (Slot VNode)) :
    VNode.printSlots depth (slots ++ slots') =
      VNode.printSlots depth slots ++ VNode.printSlots depth slots' := by
  induction slots with
  | nil => rfl
  | cons slot slots ih =>
    obtain ⟨name, params, children, implicit⟩ := slot
    simp only [List.cons_append, VNode.printSlots, ih]

/-- What holds nodes writes each of them. -/
theorem Holder.infix_fill (holder : Holder) (h : v ∈ vs) (depth : Nat) :
    ∃ inner, v.print inner <:+: (holder.fill vs).print depth := by
  cases holder with
  | parent tag props =>
    exact ⟨depth, (infix_nodes h depth).trans (infix_create ..)⟩
  | outlet name props =>
    refine ⟨depth, (infix_nodes h depth).trans ?_⟩
    have hne : vs.isEmpty = false := by
      cases vs with
      | nil => cases h
      | cons => rfl
    have hfunction : array depth (VNode.printAll depth vs) <:+:
        "() => ".toList ++ array depth (VNode.printAll depth vs) :=
      (List.suffix_append _ _).isInfix
    simp only [fill, VNode.print, hne]
    exact hfunction.trans (infix_call _ (by simp))
  | fragment =>
    exact ⟨depth, (infix_nodes h depth).trans (infix_group _)⟩
  | slot target props before name params implicit behind =>
    refine ⟨depth + 1, (infix_nodes h (depth + 1)).trans ?_⟩
    simp only [fill, VNode.print, printSlots_append, VNode.printSlots, slotsObject]
    -- the nodes stand in the function of their slot, which is an entry of the object of slots
    generalize hentries : VNode.printSlots (depth + 1) before ++ _ = entries
    have hentry : ∃ entry ∈ entries,
        array (depth + 1) (VNode.printAll (depth + 1) vs) <:+: entry.2 := by
      subst hentries
      refine ⟨_, List.mem_append_right _ (List.mem_cons_self ..), ?_⟩
      have hfunction : array (depth + 1) (VNode.printAll (depth + 1) vs) <:+:
          ['('] ++ params ++ ") => ".toList ++ array (depth + 1) (VNode.printAll (depth + 1) vs) :=
        (List.suffix_append _ _).isInfix
      exact (hfunction.trans (infix_call _ (by simp))).trans (List.suffix_append _ _).isInfix
    obtain ⟨entry, hmem, hwritten⟩ := hentry
    have hne : entries.isEmpty = false := by
      cases entries with
      | nil => cases hmem
      | cons => rfl
    rw [hne]
    exact (hwritten.trans (infix_block _ _ depth
      (List.mem_append_left _ (mem_orderSlots hmem)))).trans (infix_create ..)

theorem infix_printRoots (h : v ∈ vs) : v.print 1 <:+: printRoots vs := by
  match vs, h with
  | [root], h =>
    obtain rfl := List.mem_singleton.1 h
    exact List.infix_rfl
  | _ :: _ :: _, h => exact (infix_nodes h 1).trans (infix_group _)

/-- Nodes are written wherever they stand. -/
theorem Surroundings.infix_fill (around : Surroundings) (h : v ∈ vs) :
    ∃ depth, v.print depth <:+: printRoots (around.fill vs) := by
  induction around generalizing v vs with
  | roots => exact ⟨1, infix_printRoots h⟩
  | inside around before wraps behind holder ih =>
    obtain ⟨depth, hdepth⟩ := ih (List.mem_append_right before
      (List.mem_cons_self (a := Wrap.fillAll wraps (holder.fill vs)) (l := behind)))
    obtain ⟨inner, hinner⟩ := holder.infix_fill h (Wrap.innermostDepth depth wraps)
    rw [Wrap.print_fillAll] at hdepth
    exact ⟨inner, (hinner.trans (List.infix_append _ _ _)).trans hdepth⟩

end Nodes

theorem infix_code (mode : Mode) (roots : List VNode) :
    printRoots roots <:+: (RenderCode.ofRoots mode roots).code := by
  have hbody : printRoots roots <:+:
      functionBody (VNode.componentsAll roots).eraseDups (printRoots roots) := by
    rw [functionBody]
    exact List.infix_append _ _ _
  have hfunction : functionBody (VNode.componentsAll roots).eraseDups (printRoots roots) <:+:
      functionWord mode ++ " function render(_ctx, _cache) \x7b\n".toList ++
        functionBody (VNode.componentsAll roots).eraseDups (printRoots roots) ++ ['}', '\n'] :=
    List.infix_append _ _ _
  exact (hbody.trans hfunction).trans (List.suffix_append _ _).isInfix

/-- A node at a spot is written among all roots, between what is put around it. -/
theorem Spot.infix_printRoots (spot : Spot) (v : VNode) :
    ∃ depth, Wrap.openings depth spot.wraps ++
        v.print (Wrap.innermostDepth depth spot.wraps) ++ Wrap.closings depth spot.wraps <:+:
      printRoots (spot.fill v) := by
  obtain ⟨depth, h⟩ := spot.around.infix_fill (List.mem_append_right spot.before
    (List.mem_cons_self (a := Wrap.fillAll spot.wraps v) (l := spot.behind)))
  rw [Wrap.print_fillAll] at h
  exact ⟨depth, h⟩

/-- A node at a spot is written in the code, between what is put around it. -/
theorem Spot.infix_code (spot : Spot) (v : VNode) (mode : Mode) :
    ∃ depth, Wrap.openings depth spot.wraps ++
        v.print (Wrap.innermostDepth depth spot.wraps) ++ Wrap.closings depth spot.wraps <:+:
      (RenderCode.ofRoots mode (spot.fill v)).code := by
  obtain ⟨depth, h⟩ := spot.infix_printRoots v
  exact ⟨depth, h.trans (Render.infix_code mode _)⟩

end ModuleServer.Render
