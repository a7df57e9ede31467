import ModuleServer.Proofs.Component.Located
import ModuleServer.Proofs.Expression.Split
import ModuleServer.Proofs.Render.Whole
import ModuleServer.Proofs.Template.Spans
import ModuleServer.Server.Basic

/-!
# Requests that are answered

A request ends with a module or with a failure that has a code, whatever is in the files, but for
one case: it asks for the render function of a component, and building the template meets an
expression in which the parameter of a function cannot be told (`Server.handle_splitCharacter_iff`).

Two places where a text is cut at an offset are safe: what is wrong with a component file or with
the template in it has a line and a column, since it starts between two characters
(`read_ne_splitCharacter`, `templateModule_splitCharacter_iff`).
-/

namespace ModuleServer

open Text Render

/-! ## Messages with a place -/

namespace Component

variable {path source : Text} {c : Component}

theorem exists_located? {offset : Nat} (h : IsOffset source offset) (message : Text) :
    ∃ text, located? source offset message = some text := by
  obtain ⟨place, hplace⟩ := exists_lineColumn? h
  rw [located?, hplace]
  exact ⟨_, rfl⟩

/-- What is wrong with a component file has a line and a column. -/
theorem read_ne_splitCharacter (path source : Text) :
    Component.read path source ≠ .error .splitCharacter := by
  rw [Component.read]
  cases hparse : parse source with
  | ok c =>
    dsimp only
    split
    · exact nofun
    · exact nofun
  | error e =>
    obtain ⟨text, htext⟩ := exists_located? (isIn_of_parse hparse).start e.fault.message
    dsimp only
    rw [htext]
    exact nofun

theorem parse_of_read (h : Component.read path source = .ok c) : parse source = .ok c := by
  rw [Component.read] at h
  cases hparse : parse source with
  | ok c' =>
    rw [hparse] at h
    dsimp only at h
    split at h
    · cases h
    · cases h
      rfl
  | error e =>
    obtain ⟨text, htext⟩ := exists_located? (isIn_of_parse hparse).start e.fault.message
    rw [hparse] at h
    dsimp only at h
    rw [htext] at h
    cases h

/-- A file with a template that can be seen is not empty. -/
theorem read_of_visibleTemplate? {block : Block} (hparse : parse source = .ok c)
    (h : visibleTemplate? c = some block) : Component.read path source = .ok c := by
  have htemplate : c.template = some block := (Option.filter_eq_some_iff.1 h).1
  have hempty : c.isEmpty = false := by
    rw [isEmpty, htemplate]
    rfl
  rw [Component.read, hparse]
  dsimp only
  rw [hempty]
  rfl

/-- What is wrong with markup lies in it, in reading and in building. -/
theorem isIn_of_compile {mode : Mode} {markup : Text} {e : Template.Error}
    (h : compile mode markup = .error (.failed e)) : e.span.IsIn markup := by
  rw [compile] at h
  cases hparse : Template.parse markup with
  | error e' =>
    rw [hparse] at h
    cases h
    exact Template.isIn_of_parse hparse
  | ok nodes =>
    rw [hparse] at h
    dsimp only at h
    rw [generate] at h
    cases hbuild : buildTemplate nodes with
    | ok roots =>
      rw [hbuild] at h
      cases h
    | error stop =>
      rw [hbuild] at h
      cases h
      have hwritten := Template.areWritten_of_parse hparse
      exact hwritten.isIn_of_mem_placesAll _ (mem_places_of_buildTemplate hbuild)

theorem compile_splitCharacter_iff {mode : Mode} {markup : Text} :
    compile mode markup = .error .splitCharacter ↔
      ∃ nodes, Template.parse markup = .ok nodes ∧
        buildTemplate nodes = .error .splitCharacter := by
  rw [compile]
  cases hparse : Template.parse markup with
  | error e =>
    constructor
    · intro h
      cases h
    · rintro ⟨nodes, h, -⟩
      cases h
  | ok nodes =>
    dsimp only
    rw [generate]
    constructor
    · intro h
      refine ⟨nodes, rfl, ?_⟩
      cases hbuild : buildTemplate nodes with
      | ok roots =>
        rw [hbuild] at h
        cases h
      | error stop =>
        rw [hbuild] at h
        cases h
        rfl
    · rintro ⟨nodes', h, hbuild⟩
      cases h
      rw [hbuild]
      rfl

/-- Its place in the markup of a template is a place in the file. -/
theorem isOffset_in_file {block : Block} {mode : Mode} {e : Template.Error}
    (hparse : parse source = .ok c) (hvisible : visibleTemplate? c = some block)
    (hcompile : compile mode block.content = .error (.failed e)) :
    IsOffset source (block.span.start + e.span.start) := by
  have hmem : block ∈ c.blocks := by
    have htemplate : c.template = some block := (Option.filter_eq_some_iff.1 hvisible).1
    simp [blocks, htemplate]
  obtain ⟨before, behind, hsource, hspan⟩ := standsIn_of_parse hparse block hmem
  rw [hsource, hspan]
  exact (isIn_of_compile hcompile).start.within before behind

/-- What is wrong with a template has a line and a column in its file, so a template module is
written or fails with a message, unless building the template stops. -/
theorem templateModule_splitCharacter_iff (hparse : parse source = .ok c) :
    templateModule compiler path source c = .error .splitCharacter ↔
      ∃ block nodes, visibleTemplate? c = some block ∧
        Template.parse block.content = .ok nodes ∧
          buildTemplate nodes = .error .splitCharacter := by
  rw [templateModule]
  cases hvisible : visibleTemplate? c with
  | none =>
    constructor
    · intro h
      cases h
    · rintro ⟨block, nodes, h, -⟩
      cases h
  | some block =>
    have hiff : (∃ block' nodes, some block = some block' ∧
        Template.parse block'.content = .ok nodes ∧ buildTemplate nodes = .error .splitCharacter) ↔
          compile .module block.content = .error .splitCharacter := by
      rw [compile_splitCharacter_iff]
      constructor
      · rintro ⟨block', nodes, h, hnodes⟩
        cases h
        exact ⟨nodes, hnodes⟩
      · rintro ⟨nodes, hnodes⟩
        exact ⟨block, nodes, rfl, hnodes⟩
    rw [hiff]
    dsimp only [compiler]
    cases hcompile : compile .module block.content with
    | ok code =>
      constructor
      · intro h
        cases h
      · intro h
        cases h
    | error stop =>
      cases stop with
      | splitCharacter => exact iff_of_true rfl rfl
      | failed e =>
        obtain ⟨text, htext⟩ :=
          exists_located? (isOffset_in_file hparse hvisible hcompile) e.fault.message
        constructor
        · intro h
          dsimp only [Except.map] at h
          rw [htext] at h
          cases h
        · intro h
          cases h

end Component

/-! ## Requests -/

namespace Server

/-- Whether a request asks for the render function of a template with the given nodes. -/
def AsksFor (s : Server) (tree : FileTree) (r : Request) (nodes : List Template.Node) : Prop :=
  s.config.isEntry r = false ∧ ∃ source c block,
    s.config.findModule tree r = .ok (.component .template, source) ∧
      Component.parse source = .ok c ∧ Component.visibleTemplate? c = some block ∧
        Template.parse block.content = .ok nodes

variable {s : Server} {tree : FileTree} {reading : Nat} {r : Request}

/-- Only a template module is made by cutting texts at offsets that may fall inside a character. -/
theorem moduleCode_splitCharacter_iff {kind : ModuleKind} {path source : Text} {clock : Clock} :
    (moduleCode kind path source clock reading).1 = .error .splitCharacter ↔
      kind = .component .template ∧ ∃ c block nodes, Component.parse source = .ok c ∧
        Component.visibleTemplate? c = some block ∧ Template.parse block.content = .ok nodes ∧
          buildTemplate nodes = .error .splitCharacter := by
  have hread := Component.read_ne_splitCharacter path source
  rcases kind with _ | _ | variant
  · exact iff_of_false (fun h => by cases h) fun h => by cases h.1
  · exact iff_of_false (fun h => by cases h) fun h => by cases h.1
  cases variant with
  | main =>
    refine iff_of_false (fun h => ?_) fun h => by cases h.1
    rw [moduleCode] at h
    cases hc : Component.read path source with
    | ok c =>
      rw [hc] at h
      cases h
    | error e =>
      rw [hc] at h
      cases h
      exact hread hc
  | template =>
    rw [moduleCode]
    constructor
    · intro h
      cases hc : Component.read path source with
      | error e =>
        rw [hc] at h
        cases h
        exact absurd hc hread
      | ok c =>
        rw [hc] at h
        have hparse := Component.parse_of_read hc
        obtain ⟨block, nodes, hall⟩ := (Component.templateModule_splitCharacter_iff hparse).1 h
        exact ⟨rfl, c, block, nodes, hparse, hall⟩
    · rintro ⟨-, c, block, nodes, hparse, hvisible, hall⟩
      rw [Component.read_of_visibleTemplate? hparse hvisible]
      exact (Component.templateModule_splitCharacter_iff hparse).2 ⟨block, nodes, hvisible, hall⟩

theorem ofExcept_ne_splitCharacter {ε α : Type} (x : Except ε α) :
    Outcome.ofExcept x ≠ .error .splitCharacter := by
  cases x with
  | ok a => exact nofun
  | error e => exact nofun

/-- An expression cannot be put into the context exactly if the parameter of one of its functions
cannot be told. -/
theorem inContext_splitCharacter_iff (locals : List Text) (t : Text) :
    inContext locals t = .error .splitCharacter ↔ Expression.SplitsName t := by
  rw [← Expression.parameterNames?_eq_none_iff, inContext, Expression.prefixNames?]
  cases Expression.parameterNames? t with
  | none => exact iff_of_true rfl rfl
  | some names =>
    constructor
    · intro h
      cases h
    · intro h
      cases h

/-- The space in front of the parameter takes two bytes. -/
example : inContext [] "f(\u00a0x => x)".toList = .error .splitCharacter := by
  decide +kernel

/-- Building a template stops at one of its texts. -/
theorem exists_splitsName {nodes : List Template.Node}
    (h : buildTemplate nodes = .error .splitCharacter) :
    ∃ t ∈ textsOfNodes nodes, Expression.SplitsName t := by
  by_contra hnone
  push Not at hnone
  refine buildTemplate_whole (fun t ht => ?_) h
  refine Option.isSome_iff_ne_none.2 fun hnames => ?_
  exact hnone t ht (Expression.parameterNames?_eq_none_iff.1 hnames)

/-- A request asks for a template of which building stops exactly if making its module stops. -/
theorem asksFor_iff {kind : ModuleKind} {source : Text} (hentry : s.config.isEntry r = false)
    (hfind : s.config.findModule tree r = .ok (kind, source)) (reading : Nat) :
    (∃ nodes, s.AsksFor tree r nodes ∧ buildTemplate nodes = .error .splitCharacter) ↔
      (moduleCode kind r.path source s.clock reading).1 = .error .splitCharacter := by
  rw [moduleCode_splitCharacter_iff]
  constructor
  · rintro ⟨nodes, ⟨-, source', c, block, hfound, hparse, hvisible, hnodes⟩, hbuild⟩
    cases hfind.symm.trans hfound
    exact ⟨rfl, c, block, nodes, hparse, hvisible, hnodes, hbuild⟩
  · rintro ⟨rfl, c, block, nodes, hparse, hvisible, hnodes, hbuild⟩
    exact ⟨nodes, ⟨hentry, source, c, block, hfind, hparse, hvisible, hnodes⟩, hbuild⟩

/-- Every request is answered with a module or with a failure, whatever is in the files, unless it
asks for the render function of a template of which building stops. That takes an expression of the
template with an arrow whose lone parameter is set off by a character of more than one byte, and an
expression that is put into the context stops building exactly if it is one. -/
theorem handle_splitCharacter_iff (s : Server) (tree : FileTree) (reading : Nat) (r : Request) :
    ((s.handle tree reading r).1 = .error .splitCharacter ↔
      ∃ nodes, s.AsksFor tree r nodes ∧ buildTemplate nodes = .error .splitCharacter) ∧
    (∀ nodes, buildTemplate nodes = .error .splitCharacter →
      ∃ t ∈ textsOfNodes nodes, Expression.SplitsName t) ∧
    ∀ locals t, inContext locals t = .error .splitCharacter ↔ Expression.SplitsName t := by
  refine ⟨?_, fun nodes => exists_splitsName, inContext_splitCharacter_iff⟩
  · rw [handle]
    cases hentry : s.config.isEntry r with
    | true =>
      rw [if_pos rfl]
      refine iff_of_false (ofExcept_ne_splitCharacter _) ?_
      rintro ⟨nodes, ⟨hnot, -⟩, -⟩
      exact absurd (hentry.symm.trans hnot) Bool.noConfusion
    | false =>
      rw [if_neg Bool.false_ne_true]
      cases hfind : s.config.findModule tree r with
      | error e =>
        rw [prepare, hfind]
        refine iff_of_false nofun ?_
        rintro ⟨nodes, ⟨-, source, c, block, hfound, -⟩, -⟩
        cases hfind.symm.trans hfound
      | ok found =>
        obtain ⟨kind, source⟩ := found
        rw [asksFor_iff hentry hfind reading, prepare, hfind]
        dsimp only
        rcases moduleCode kind r.path source s.clock reading with ⟨code, clock⟩
        cases code with
        | ok code => exact iff_of_false (ofExcept_ne_splitCharacter _) nofun
        | error stop => exact ⟨fun h => congrArg _ (Except.error.inj h), fun h => by cases h; rfl⟩

end Server

end ModuleServer
