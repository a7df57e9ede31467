import ModuleServer.Proofs.Render.Layout
import ModuleServer.Proofs.Text.Cut
import ModuleServer.Proofs.Text.Pieces

/-!
# What code draws

`Draws` says of a virtual node that its code draws some markup, at any depth. An element draws what
its name, its attributes and its content tell (`exists_reads_create`), and a render function draws
what its roots draw (`ofCode?_ofRoots`).
-/

namespace ModuleServer.Render

open Text Template
open Script (Term Reads)
open List (Forall₂)

/-! ## Nodes -/

/-- The content of an element, as written, tells what it holds. -/
def Holds (content : Option Text) (children : List Markup) : Prop :=
  match content with
  | none => children = []
  | some t => ∃ term, Reads t term ∧ Markup.ofContent? term = some children

theorem create_some (target : Text) (props : Option Text) (content : Text) :
    create target props (some content) =
      call Helper.createVNode.localName [target, props.getD "null".toList, content] := by
  cases props <;> rfl

/-- An element is read back from its name, its props and its content, whatever is left out. -/
theorem exists_reads_create (tag : Text) {attributes : List (Text × Text)} (depth : Nat)
    (h : (attributes.map Prod.fst).Nodup) {content : Option Text} {children : List Markup}
    (hcontent : Holds content children) :
    ∃ term, Reads (create (Script.quote tag)
        (Assignment.print? depth (attributes.map contribution)) content) term ∧
      Markup.ofTerm? term = some (.element tag attributes children) := by
  have hname := isPlainName_localName .createVNode
  have htag := Script.reads_quote tag
  obtain ⟨props, hprops, hattributes⟩ := exists_reads_props depth h
  -- `null` stands for missing props only where content follows
  cases content with
  | some content =>
    obtain ⟨term, hread, hterm⟩ := hcontent
    rw [create_some]
    refine ⟨_, reads_call hname (.cons htag (.cons hprops (.cons hread .nil)))
      (List.cons_ne_nil _ _), ?_⟩
    rw [Markup.ofTerm?, if_neg (by decide), if_pos rfl, hattributes, hterm]
    rfl
  | none =>
    obtain rfl : children = [] := hcontent
    rw [print?_contributions depth h] at hprops ⊢
    cases attributes with
    | nil =>
      refine ⟨_, reads_call hname (.cons htag .nil) (List.cons_ne_nil _ _), ?_⟩
      rw [Markup.ofTerm?, if_neg (by decide), if_pos rfl]
    | cons a attributes =>
      refine ⟨_, reads_call hname (.cons htag (.cons hprops .nil)) (List.cons_ne_nil _ _), ?_⟩
      rw [Markup.ofTerm?, if_neg (by decide), if_pos rfl, hattributes]
      rfl

/-- At any depth, the code of the virtual node draws the markup, and it names no component. -/
def Draws (v : VNode) (m : Markup) : Prop :=
  v.components = [] ∧ ∀ depth, ∃ term, Reads (v.print depth) term ∧ Markup.ofTerm? term = some m

section Draws

variable {tag : Text} {attributes : List (Text × Text)} {vs : List VNode} {ms : List Markup}

theorem componentsAll_draws (h : Forall₂ Draws vs ms) : VNode.componentsAll vs = [] := by
  induction h with
  | nil => rfl
  | cons hv _ ih => rw [VNode.componentsAll, hv.1, ih, List.append_nil]

theorem exists_reads_all (h : Forall₂ Draws vs ms) (depth : Nat) :
    ∃ terms, Forall₂ Reads (VNode.printAll depth vs) terms ∧ Markup.ofTerms? terms = some ms := by
  induction h with
  | nil => exact ⟨[], .nil, rfl⟩
  | cons hv _ ih =>
    obtain ⟨term, hread, hterm⟩ := hv.2 depth
    obtain ⟨terms, hreads, hterms⟩ := ih
    refine ⟨term :: terms, .cons hread hreads, ?_⟩
    rw [Markup.ofTerms?, hterm, hterms]
    rfl

theorem draws_text (content : Text) : Draws (.text [.literal content]) (.text content) := by
  refine ⟨rfl, fun depth => ⟨_, reads_call (isPlainName_localName .createTextVNode)
    (.cons (Script.reads_quote content) .nil) (List.cons_ne_nil _ _), ?_⟩⟩
  rw [Markup.ofTerm?, if_pos rfl]

theorem draws_leaf (h : (attributes.map Prod.fst).Nodup) :
    Draws (.leaf tag (attributes.map contribution)) (.element tag attributes []) :=
  ⟨rfl, fun depth => exists_reads_create tag depth h (show Holds none [] from rfl)⟩

theorem draws_labelled (h : (attributes.map Prod.fst).Nodup) (content : Text) :
    Draws (.labelled tag (attributes.map contribution) [.literal content])
      (.element tag attributes [.text content]) :=
  ⟨rfl, fun depth => exists_reads_create tag depth h
    ⟨.string content, Script.reads_quote content, rfl⟩⟩

theorem draws_parent (h : (attributes.map Prod.fst).Nodup) (hchildren : Forall₂ Draws vs ms) :
    Draws (.parent tag (attributes.map contribution) vs) (.element tag attributes ms) := by
  refine ⟨componentsAll_draws hchildren, fun depth => exists_reads_create tag depth h ?_⟩
  obtain ⟨terms, hreads, hterms⟩ := exists_reads_all hchildren depth
  exact ⟨.array terms, reads_array depth hreads, hterms⟩

end Draws

/-! ## Code -/

section Code

variable {mode : Mode} {roots : List VNode} {forest : List Markup}

theorem ofRoot?_of_ofTerm? {term : Term} {m : Markup} (h : Markup.ofTerm? term = some m) :
    Markup.ofRoot? term = some [m] := by
  unfold Markup.ofRoot?
  split
  · simp [Markup.ofTerm?] at h
  · simp [Markup.ofTerm?] at h
  · rw [h, Option.map_some]

/-- What the render function returns draws the roots, `null` none of them. -/
theorem exists_reads_roots (h : Forall₂ Draws roots forest) :
    ∃ term, Reads (printRoots roots) term ∧ Markup.ofRoot? term = some forest := by
  cases h with
  | nil => exact ⟨.name "null".toList, reads_null, rfl⟩
  | @cons v m roots forest hv hroots =>
    cases hroots with
    | nil =>
      obtain ⟨term, hread, hterm⟩ := hv.2 1
      exact ⟨term, hread, ofRoot?_of_ofTerm? hterm⟩
    | cons hw hroots =>
      obtain ⟨terms, hreads, hterms⟩ := exists_reads_all (.cons hv (.cons hw hroots)) 1
      have htarget := Script.reads_name (isPlainName_localName .fragment)
      have harguments := List.Forall₂.cons htarget <| .cons reads_null <|
        .cons (reads_array 1 hreads) .nil
      refine ⟨_, reads_call (isPlainName_localName .createVNode) harguments
        (List.cons_ne_nil _ _), ?_⟩
      rw [Markup.ofRoot?, if_pos ⟨rfl, rfl, rfl⟩, hterms]

theorem not_mem_helperLine (helpers : List Helper) : ')' ∉ helperLine mode helpers := by
  have hname : ∀ h : Helper, ')' ∉ h.name ∧ ')' ∉ h.localName := by
    intro h
    cases h <;> decide
  unfold helperLine
  split
  · exact List.not_mem_nil
  · cases mode with
    | module =>
      have hlist : ')' ∉ joined [',', ' ']
          (helpers.map fun h => h.name ++ " as ".toList ++ h.localName) :=
        not_mem_joined (by decide) (by simp [hname])
      simp only [List.mem_append, not_or]
      exact ⟨⟨⟨⟨by decide, hlist⟩, by decide⟩, by decide⟩, by decide⟩
    | function =>
      have hlist : ')' ∉ joined [',', ' ']
          (helpers.map fun h => h.name ++ [':', ' '] ++ h.localName) :=
        not_mem_joined (by decide) (by simp [hname])
      simp only [List.mem_append, not_or]
      exact ⟨⟨⟨by decide, hlist⟩, by decide⟩, by decide⟩

theorem splitLast?_closing (t : Text) :
    splitLast? (· = '}') (t ++ ['\n', '}', '\n']) = some (t ++ ['\n'], ['\n']) := by
  have hreverse : (t ++ ['\n', '}', '\n']).reverse = '\n' :: '}' :: '\n' :: t.reverse := by
    rw [List.reverse_append]
    rfl
  rw [splitLast?, hreverse]
  change some (('\n' :: t.reverse).reverse, ['\n']) = _
  rw [List.reverse_cons, List.reverse_reverse]

/-- The code of nodes that name no component, around what the render function returns. -/
theorem code_ofRoots (h : VNode.componentsAll roots = []) :
    (RenderCode.ofRoots mode roots).code =
      (helperLine mode (RenderCode.ofRoots mode roots).helpers ++ functionWord mode ++
        " function render(_ctx, _cache".toList) ++
      (')' :: " \x7b\n  return ".toList ++ (printRoots roots ++ ['\n', '}', '\n'])) := by
  have hfunction : " function render(_ctx, _cache) \x7b\n".toList ++ "  return ".toList =
      " function render(_ctx, _cache".toList ++ ')' :: " \x7b\n  return ".toList := by decide
  simp only [RenderCode.ofRoots, functionBody, h, List.eraseDups_nil, List.flatMap_nil,
    List.isEmpty_nil, if_true, List.nil_append, List.append_assoc]
  rw [← List.append_assoc (" function render(_ctx, _cache) \x7b\n".toList), hfunction,
    List.append_assoc]
  rfl

theorem returned?_code (h : VNode.componentsAll roots = []) :
    Markup.returned? (RenderCode.ofRoots mode roots).code = some (printRoots roots ++ ['\n']) := by
  have hbefore : ')' ∉ helperLine mode (RenderCode.ofRoots mode roots).helpers ++
      functionWord mode ++ " function render(_ctx, _cache".toList := by
    have hword : ')' ∉ functionWord mode := by
      cases mode <;> decide
    simp only [List.mem_append, not_or]
    exact ⟨⟨not_mem_helperLine _, hword⟩, by decide⟩
  have hcut : cut? (')' :: " \x7b\n  return ".toList) _ = _ :=
    cut?_append hbefore (printRoots roots ++ ['\n', '}', '\n'])
  rw [Markup.returned?, code_ofRoots h, hcut, Option.bind_some]
  dsimp only
  rw [splitLast?_closing, Option.map_some]

/-- The code of nodes draws what the nodes draw. -/
theorem ofCode?_ofRoots (h : Forall₂ Draws roots forest) :
    Markup.ofCode? (RenderCode.ofRoots mode roots).code = some forest := by
  obtain ⟨term, hread, hterm⟩ := exists_reads_roots h
  have hline : ['\n'].all isBlank := by decide
  rw [Markup.ofCode?, returned?_code (componentsAll_draws h), Option.bind_some,
    hread.read?_eq hline, Option.bind_some, hterm]

end Code

end ModuleServer.Render
