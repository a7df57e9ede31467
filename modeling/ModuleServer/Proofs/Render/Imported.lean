import ModuleServer.Proofs.Render.Bare
import ModuleServer.Proofs.Render.Resolved

/-!
# Helpers are imported exactly when they are used

The code of a template is a line that brings helpers in, and a function. In a template without
underscores the function refers to a helper if and only if the line binds it (`generate_imports`):

* `isWordIn_renderFunction_iff`: the references in the function are those of its nodes and of the
  lines that resolve components, so they tally with the helpers of the nodes.
* `bindings` reads a line that brings in names, and reads the first line back to the helpers
  (`exists_helperLine`).
-/

namespace ModuleServer.Render

open Text Template Expression

/-! ## The render function -/

/-- The lines that resolve components, and the blank line behind them. -/
def componentLines (components : List Text) : Text :=
  components.flatMap componentLine ++ if components.isEmpty then [] else ['\n']

/-- The code of a render function, from its lines before the result and the result. -/
def renderFunction (mode : Mode) (declarations root : Text) : Text :=
  functionWord mode ++ " function render(_ctx, _cache) \x7b\n".toList ++
    (declarations ++ "  return ".toList ++ root ++ ['\n']) ++ ['}', '\n']

section Function

variable {roots : List VNode}

theorem tally_roots (h : VNode.AllIn quietParts roots) :
    Tally (references (printRoots roots)) (rootHelpers roots) (VNode.componentsAll roots) := by
  have hall := VNode.tally_all h 1
  match roots, hall with
  | [], _ =>
    have hnull : references (printRoots []) = [] := references_of_not_mem (by decide)
    rw [hnull]
    exact .nil
  | [root], hall =>
    rw [VNode.printAll, VNode.printAll, List.flatMap_singleton] at hall
    exact hall
  | first :: second :: others, hall =>
    have hcode : references (printRoots (first :: second :: others)) = _ :=
      (references_group _).trans (by rw [references_array])
    rw [hcode]
    exact ((hall.cons .createVNode).cons .fragment).of_mem_iff fun _ => by simp [or_left_comm]

theorem infix_componentLines {name : Text} {components : List Text} (h : name ∈ components) :
    componentLine name <:+: componentLines components := by
  obtain ⟨before, behind, rfl⟩ := List.append_of_mem h
  rw [componentLines, List.flatMap_append, List.flatMap_cons]
  exact (List.infix_append' _ _ _).trans (List.prefix_append _ _).isInfix

theorem references_componentLine {name : Text} (h : '_' ∉ name) (t : Text) :
    references (componentLine name ++ t) =
      componentVariable name :: Helper.resolveComponent.localName :: references t := by
  have hconst : ∀ t, references ("  const ".toList ++ t) = references t := by
    intro t
    have hcut : "  const ".toList ++ t = "  const".toList ++ ' ' :: t := by simp
    rw [hcut, references_behind (by decide) (by decide)]
  have hequals : " = ".toList = [' ', '=', ' '] := by decide
  unfold componentLine
  simp only [List.append_assoc, hconst, hequals]
  simp (disch := decide) only [List.cons_append, List.nil_append, references_append_cons,
    references_cons, references_componentVariable, references_helper, List.flatMap_cons,
    List.flatMap_nil, references_quote h, List.append_nil]

theorem references_componentLines {components : List Text} (h : ∀ name ∈ components, '_' ∉ name)
    (t : Text) : references (componentLines components ++ t) =
      (components.flatMap fun name =>
        [componentVariable name, Helper.resolveComponent.localName]) ++ references t := by
  have hlines : ∀ t, references (components.flatMap componentLine ++ t) =
      (components.flatMap fun name =>
        [componentVariable name, Helper.resolveComponent.localName]) ++ references t := by
    intro t
    induction components with
    | nil => rfl
    | cons name components ih =>
      obtain ⟨hname, hcomponents⟩ := List.forall_mem_cons.1 h
      rw [List.flatMap_cons, List.append_assoc, references_componentLine hname, ih hcomponents]
      rfl
  rw [componentLines, List.append_assoc, hlines]
  split
  · rw [List.nil_append]
  · rw [List.singleton_append, references_cons (by decide)]

/-- A render function refers to what its lines for components and its result refer to. -/
theorem references_renderFunction (mode : Mode) {components : List Text}
    (h : ∀ name ∈ components, '_' ∉ name) (root : Text) :
    references (renderFunction mode (componentLines components) root) =
      (components.flatMap fun name =>
        [componentVariable name, Helper.resolveComponent.localName]) ++ references root := by
  have hhead : ∀ t, references (functionWord mode ++
      (" function render(_ctx, _cache) \x7b\n".toList ++ t)) = references t := by
    intro t
    have hcut : functionWord mode ++ (" function render(_ctx, _cache) \x7b\n".toList ++ t) =
        (functionWord mode ++ " function render(_ctx, _cache) \x7b".toList) ++ '\n' :: t := by simp
    have hnone : references (functionWord mode ++
        " function render(_ctx, _cache) \x7b".toList) = [] := by
      cases mode <;> decide
    rw [hcut, references_append_cons (by decide), hnone, List.nil_append]
  have hreturn : ∀ t, references ("  return ".toList ++ t) = references t := by
    intro t
    have hcut : "  return ".toList ++ t = "  return".toList ++ ' ' :: t := by simp
    rw [hcut, references_behind (by decide) (by decide)]
  simp only [renderFunction, List.append_assoc, hhead, references_componentLines h, hreturn]
  simp (disch := decide) only [List.cons_append, List.nil_append, references_append_cons,
    references_cons, references_nil, List.append_nil]

end Function

/-! ## The first line -/

/-- The text between the first curly bracket that opens and the next that closes. -/
def inBraces (t : Text) : Text :=
  ((t.dropWhile (· ≠ '{')).drop 1).takeWhile (· ≠ '}')

/-- What a clause between brackets binds: the first of its names, by the last. -/
def readClause (clause : Text) : Option Text × Option Text :=
  let names := (words clause).filter (!·.isEmpty)
  (names.head?, names.getLast?)

/-- What a line binds: each of the names between its brackets, with the name it is bound by. -/
def bindings (line : Text) : List (Option Text × Option Text) :=
  (pieces (· = ',') (inBraces line)).map readClause

/-- The clause that brings in a helper. -/
def helperClause (mode : Mode) (h : Helper) : Text :=
  match mode with
  | .module => h.name ++ " as ".toList ++ h.localName
  | .function => h.name ++ [':', ' '] ++ h.localName

section Line

variable {mode : Mode} {helpers : List Helper}

theorem inBraces_enclosed {before inside : Text} (hbefore : '{' ∉ before) (hinside : '}' ∉ inside)
    (behind : Text) : inBraces (before ++ '{' :: (inside ++ '}' :: behind)) = inside := by
  have hdrop : (before ++ '{' :: (inside ++ '}' :: behind)).dropWhile (· ≠ '{') =
      '{' :: (inside ++ '}' :: behind) := by
    rw [List.dropWhile_append_of_pos (by simpa using fun c hc => ne_of_mem_of_not_mem hc hbefore)]
    rfl
  rw [inBraces, hdrop, List.drop_one, List.tail_cons,
    List.takeWhile_append_of_pos (by simpa using fun c hc => ne_of_mem_of_not_mem hc hinside)]
  simp

theorem readClause_helperClause (mode : Mode) (h : Helper) :
    readClause (' ' :: helperClause mode h) = (some h.name, some h.localName) := by
  cases mode <;> cases h <;> decide

theorem readClause_snoc (clause : Text) : readClause (clause ++ [' ']) = readClause clause := by
  have hwords : words (clause ++ [' ']) = words clause ++ [[]] :=
    words_append_cons (by decide) clause []
  rw [readClause, hwords, List.filter_append]
  simp [readClause]

theorem not_mem_helperClause (mode : Mode) (h : Helper) :
    ',' ∉ helperClause mode h ∧ '}' ∉ helperClause mode h ∧ '\n' ∉ helperClause mode h := by
  cases mode <;> cases h <;> decide

/-- The clauses between the brackets are read one by one. -/
theorem map_readClause (mode : Mode) (first : Helper) (others : List Helper) :
    (pieces (· = ',') (' ' :: joined [',', ' '] ((first :: others).map (helperClause mode)) ++
      [' '])).map readClause = (first :: others).map fun h => (some h.name, some h.localName) := by
  have hcomma : ∀ h, ∀ c ∈ ' ' :: helperClause mode h, decide (c = ',') = false := by
    intro h c hc
    rcases List.mem_cons.1 hc with rfl | hc
    · rfl
    · exact decide_eq_false fun heq => (not_mem_helperClause mode h).1 (heq ▸ hc)
  induction others generalizing first with
  | nil =>
    have hall : ∀ c ∈ ' ' :: helperClause mode first ++ [' '], decide (c = ',') = false :=
      List.forall_mem_append.2 ⟨hcomma first, List.forall_mem_singleton.2 rfl⟩
    have hpiece := readClause_snoc (' ' :: helperClause mode first)
    rw [readClause_helperClause] at hpiece
    rw [List.map_singleton, joined, pieces_of_no_separator hall, List.map_singleton, hpiece]
    rfl
  | cons second others ih =>
    have hcut : ' ' :: joined [',', ' '] ((first :: second :: others).map (helperClause mode)) ++
        [' '] = (' ' :: helperClause mode first) ++ ',' ::
          (' ' :: joined [',', ' '] ((second :: others).map (helperClause mode)) ++ [' ']) := by
      simp [joined]
    rw [hcut, pieces_append (decide_eq_true rfl), pieces_of_no_separator (hcomma first),
      List.map_append, ih, List.map_singleton, readClause_helperClause]
    rfl

/-- The text between the brackets of the line that brings in helpers. -/
def helperClauses (mode : Mode) (helpers : List Helper) : Text :=
  ' ' :: joined [',', ' '] (helpers.map (helperClause mode)) ++ [' ']

theorem not_mem_helperClauses (mode : Mode) (helpers : List Helper) {c : Char}
    (hc : c = '}' ∨ c = '\n') : c ∉ helperClauses mode helpers := by
  have hgap : c ∉ [',', ' '] := by
    rcases hc with rfl | rfl <;> decide
  have hclauses : c ∉ joined [',', ' '] (helpers.map (helperClause mode)) := by
    refine not_mem_joined hgap fun t ht hmem => ?_
    obtain ⟨h, -, rfl⟩ := List.mem_map.1 ht
    obtain ⟨-, hbrace, hbreak⟩ := not_mem_helperClause mode h
    rcases hc with rfl | rfl
    · exact hbrace hmem
    · exact hbreak hmem
  rw [helperClauses, List.cons_append, List.mem_cons, List.mem_append, not_or, not_or]
  refine ⟨?_, hclauses, ?_⟩ <;> rcases hc with rfl | rfl <;> decide

theorem bindings_enclosed (hne : helpers ≠ []) {before : Text} (hbefore : '{' ∉ before)
    (behind : Text) : bindings (before ++ '{' :: (helperClauses mode helpers ++ '}' :: behind)) =
      helpers.map fun h => (some h.name, some h.localName) := by
  obtain ⟨first, others, rfl⟩ := List.exists_cons_of_ne_nil hne
  rw [bindings, inBraces_enclosed hbefore (not_mem_helperClauses _ _ (.inl rfl))]
  exact map_readClause mode first others

/-- The line that brings in helpers is one line, and binds each of them by its local name. -/
theorem exists_helperLine (mode : Mode) (hne : helpers ≠ []) :
    ∃ line, helperLine mode helpers = line ++ ['\n', '\n'] ∧ '\n' ∉ line ∧
      bindings line = helpers.map fun h => (some h.name, some h.localName) := by
  have hline : ∃ before behind, helperLine mode helpers =
      before ++ '{' :: (helperClauses mode helpers ++ '}' :: behind) ++ ['\n', '\n'] ∧
      '{' ∉ before ∧ '\n' ∉ before ∧ '\n' ∉ behind := by
    unfold helperLine helperClauses
    rw [List.isEmpty_eq_false_iff.2 hne, if_neg Bool.false_ne_true]
    cases mode with
    | module =>
      refine ⟨"import ".toList, " from ".toList ++ Script.quote runtimeModule, ?_, by decide,
        by decide, by decide⟩
      have hclause : helperClause .module = fun h => h.name ++ " as ".toList ++ h.localName := rfl
      rw [hclause]
      simp
    | function =>
      refine ⟨"const ".toList, " = Vue".toList, ?_, by decide, by decide, by decide⟩
      have hclause : helperClause .function = fun h => h.name ++ [':', ' '] ++ h.localName := rfl
      rw [hclause]
      simp
  obtain ⟨before, behind, heq, hbrace, hbefore, hbehind⟩ := hline
  refine ⟨_, heq, ?_, bindings_enclosed hne hbrace behind⟩
  have hinside := not_mem_helperClauses mode helpers (.inr rfl)
  simp [hbefore, hbehind, hinside]

end Line

/-! ## Templates -/

theorem localName_injective : Function.Injective Helper.localName := by
  intro h h' heq
  have hall : ∀ h ∈ Helper.all, ∀ h' ∈ Helper.all, h.localName = h'.localName → h = h' := by
    decide
  exact hall h h.mem_all h' h'.mem_all heq

theorem not_prefix_localName (h : Helper) : ¬variableStart <+: h.localName := by
  cases h <;> decide

theorem localName_ne_componentVariable (h : Helper) (name : Text) :
    h.localName ≠ componentVariable name :=
  fun heq => not_prefix_localName h (heq ▸ List.prefix_append _ _)

section Templates

variable {roots : List VNode} {mode : Mode} {components : List Text}

/-- The render function refers to the helpers of its nodes, and to no other. -/
theorem isWordIn_renderFunction_iff (h : VNode.AllIn quietParts roots)
    (hcomponents : ∀ name, name ∈ components ↔ name ∈ VNode.componentsAll roots)
    (hnames : ∀ name ∈ components, '_' ∉ name) (helper : Helper) :
    IsWordIn helper.localName
        (renderFunction mode (componentLines components) (printRoots roots)) ↔
      helper ∈ rootHelpers roots := by
  have hlines : helper.localName ∈ (components.flatMap fun name =>
        [componentVariable name, Helper.resolveComponent.localName]) ↔
      helper.localName ∈ (VNode.componentsAll roots).map fun _ =>
        Helper.resolveComponent.localName := by
    simp only [List.mem_flatMap, List.mem_map, List.mem_cons, List.not_mem_nil, or_false,
      localName_ne_componentVariable, false_or, hcomponents]
    exact exists_congr fun _ => and_congr_right fun _ => eq_comm
  have hnone : helper.localName ∉ (VNode.componentsAll roots).map componentVariable := by
    rw [List.mem_map]
    rintro ⟨name, -, heq⟩
    exact localName_ne_componentVariable helper name heq.symm
  rw [← and_iff_left (a := IsWordIn _ _) (isReference_localName helper), ← mem_references_iff,
    references_renderFunction mode hnames, List.mem_append, hlines, or_comm,
    tally_roots h, or_iff_left hnone, List.mem_map_of_injective localName_injective]

/-- Every variable of a component in what is returned is that of a name. -/
theorem exists_of_isWordIn_variable (h : VNode.AllIn quietParts roots) {word : Text}
    (hstart : variableStart <+: word) (hword : IsWordIn word (printRoots roots)) :
    ∃ name ∈ VNode.componentsAll roots, word = componentVariable name := by
  have hmem := mem_references_iff.2 ⟨hword, isReference_of_startsWith hstart⟩
  rcases (tally_roots h word).1 (.inl hmem) with hhelper | hcomponent
  · obtain ⟨helper, -, rfl⟩ := List.mem_map.1 hhelper
    exact absurd hstart (not_prefix_localName helper)
  · obtain ⟨name, hname, rfl⟩ := List.mem_map.1 hcomponent
    exact ⟨name, hname, rfl⟩

end Templates

/-- Helpers are imported exactly when they are used. In the code of a template without underscores,
in which no listener is replaced, the render function refers to a helper by its local name if and
only if the helper is one of the result; the line before it is there if there is any helper, and
binds the local names of all of them, each once; and every variable of a component in what is
returned is declared before, by the line that resolves the component. -/
theorem generate_imports {mode : Mode} {nodes : List Node} {code : RenderCode}
    (hgenerate : generate mode nodes = .ok code)
    (hbare : ∀ node ∈ nodesIn nodes, ∀ t ∈ nodeTexts node, '_' ∉ t)
    (hkeeps : ∀ node ∈ nodesIn nodes, keepsListeners node) :
    ∃ first declarations roots,
      buildTemplate nodes = .ok roots ∧
      code.code = first ++ renderFunction mode declarations (printRoots roots) ∧
      (∀ helper : Helper,
        IsWordIn helper.localName (renderFunction mode declarations (printRoots roots)) ↔
          helper ∈ code.helpers) ∧
      (code.helpers = [] → first = []) ∧
      (code.helpers ≠ [] → ∃ line, first = line ++ ['\n', '\n'] ∧ '\n' ∉ line ∧
        bindings line = code.helpers.map fun helper => (some helper.name, some helper.localName)) ∧
      (code.helpers.map Helper.localName).Nodup ∧
      ∀ word, variableStart <+: word → IsWordIn word (printRoots roots) →
        ∃ name ∈ code.components, word = componentVariable name ∧
          componentLine name <:+: declarations := by
  obtain ⟨roots, hroots, rfl⟩ := generate_eq_ok.1 hgenerate
  have hall := allIn_quietParts hbare hkeeps hroots
  have hcomponents : ∀ name, name ∈ (VNode.componentsAll roots).eraseDups ↔
      name ∈ VNode.componentsAll roots := fun name => List.mem_eraseDups
  have hnames : ∀ name ∈ (VNode.componentsAll roots).eraseDups, '_' ∉ name := by
    intro name hname
    rw [hcomponents, mem_componentsAll_iff hroots] at hname
    obtain ⟨tag, children, span, hdrawn, -, rfl, -⟩ := hname
    exact hbare _ (mem_nodesIn_of_drawn hdrawn) _ (List.mem_cons_self ..)
  have hnodup : (Helper.ordered (rootHelpers roots)).Nodup :=
    List.Nodup.filter _ (by decide : Helper.all.Nodup)
  refine ⟨helperLine mode (Helper.ordered (rootHelpers roots)),
    componentLines (VNode.componentsAll roots).eraseDups, roots, hroots, rfl, fun helper => ?_,
    fun hnone => ?_, exists_helperLine mode, hnodup.map localName_injective,
    fun word hstart hword => ?_⟩
  · rw [isWordIn_renderFunction_iff hall hcomponents hnames]
    exact Helper.mem_ordered.symm
  · change Helper.ordered (rootHelpers roots) = [] at hnone
    rw [hnone]
    rfl
  · obtain ⟨name, hname, rfl⟩ := exists_of_isWordIn_variable hall hstart hword
    have hmem := (hcomponents name).2 hname
    exact ⟨name, hmem, rfl, infix_componentLines hmem⟩

/-- A template with a component that listens to an event. -/
def listeningComponent : List Node :=
  [.element ⟨"my-item".toList, .component,
    [.directive ⟨"on".toList, some "click".toList, some "go".toList, ["stop".toList], ⟨9, 25⟩⟩]⟩ []
    ⟨0, 27⟩]

/-- The code of this template. -/
def listeningCode : RenderCode where
  code :=
    "import \x7b resolveComponent as _resolveComponent, withModifiers as _withModifiers, ".toList ++
      "createVNode as _createVNode \x7d from \"vue\"\n\n".toList ++
      "export function render(_ctx, _cache) \x7b\n".toList ++
      "  const _component_my_item = _resolveComponent(\"my-item\")\n\n".toList ++
      "  return _createVNode(_component_my_item, \x7b onClick: ".toList ++
      "_withModifiers(_ctx.go, [\"stop\"]) \x7d)\n\x7d\n".toList
  helpers := [.resolveComponent, .withModifiers, .createVNode]
  components := ["my-item".toList]

theorem generate_imports_listeningComponent :
    generate .module listeningComponent = .ok listeningCode ∧
      (∀ node ∈ nodesIn listeningComponent, ∀ t ∈ nodeTexts node, '_' ∉ t) ∧
      (∀ node ∈ nodesIn listeningComponent, keepsListeners node) ∧
      ∃ first function, listeningCode.code = first ++ function ∧
        IsWordIn Helper.withModifiers.localName function ∧
        ¬IsWordIn Helper.withKeys.localName function := by
  have hgenerate : generate .module listeningComponent = .ok listeningCode := by decide +kernel
  have hbare : ∀ node ∈ nodesIn listeningComponent, ∀ t ∈ nodeTexts node, '_' ∉ t := by
    decide +kernel
  have hkeeps : ∀ node ∈ nodesIn listeningComponent, keepsListeners node := by decide +kernel
  obtain ⟨first, declarations, roots, -, hcode, hused, -⟩ :=
    generate_imports hgenerate hbare hkeeps
  refine ⟨hgenerate, hbare, hkeeps, first, _, hcode, (hused .withModifiers).2 (by decide), ?_⟩
  exact fun h => absurd ((hused .withKeys).1 h) (by decide)

end ModuleServer.Render
