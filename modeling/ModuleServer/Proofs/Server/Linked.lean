import ModuleServer.Proofs.Component.Link
import ModuleServer.Proofs.Import.Asked
import ModuleServer.Proofs.Import.FirstLine
import ModuleServer.Proofs.Render.Built
import ModuleServer.Proofs.Server.Confinement

/-!
# Components and their template modules

The first line of a main module names the address of the template module, and whoever runs the
component asks for that address next. The two modules are made from one file under different
conditions: a main module needs a file that can be read, a template module a template in it as well.

* `Server.exists_of_served` says what stands behind a module that is served, and
  `Server.handle_template` when a template module is.
* `Server.handle_templateUrl`: behind a main module, a component with a template that compiles is
  served its template module as well, and one without a template is always refused it.
-/

namespace ModuleServer

open Text

theorem head?_path_ofRaw (raw : Text) (query : Option Text) :
    (Request.ofRaw raw query).path.head? = some '/' := by
  rw [Request.ofRaw]
  split
  · assumption
  · rfl

/-! ## Requests that are served -/

namespace Config

variable {c : Config} {tree : FileTree}

/-- The entry document is served as such. -/
theorem kind_of_readEntry {served : Served} (h : c.readEntry tree = .ok served) :
    served.kind = .entry := by
  rw [readEntry] at h
  obtain ⟨file, -, h⟩ := Render.bind_eq_ok.1 h
  split at h
  · cases h
    rfl
  · cases h

/-- The path says that a component is asked for, the parameters which module of it. -/
theorem classify_component {r r' : Request} {variant variant' : Variant}
    (h : c.classify r = .ok (.component variant)) (hpath : r'.path = r.path)
    (hvariant : r'.variant = .ok variant') : c.classify r' = .ok (.component variant') := by
  have hextension : r'.extension? = r.extension? := by
    rw [Request.extension?, hpath, Request.extension?]
  rw [classify] at h ⊢
  rw [hextension]
  cases hext : r.extension? with
  | none =>
    rw [hext] at h
    cases h
  | some ext =>
    rw [hext] at h
    dsimp only at h ⊢
    split at h
    · cases h
    · rename_i hscript
      rw [if_neg hscript]
      split at h
      · rename_i hcomponent
        rw [if_pos hcomponent, hvariant]
        rfl
      · cases h

theorem findModule_eq_ok_iff {r : Request} {kind : ModuleKind} {source : Text} :
    c.findModule tree r = .ok (kind, source) ↔
      c.classify r = .ok kind ∧ c.readSource tree r.path = .ok source := by
  rw [findModule]
  cases c.classify r with
  | error e => simp [bind, Except.bind]
  | ok kind =>
    cases c.readSource tree r.path with
    | error e => simp [bind, Except.bind]
    | ok source => simp [bind, Except.bind, pure, Except.pure]

/-- The modules of a component are made from one file. -/
theorem findModule_component {r r' : Request} {variant variant' : Variant} {source : Text}
    (h : c.findModule tree r = .ok (.component variant, source)) (hpath : r'.path = r.path)
    (hvariant : r'.variant = .ok variant') :
    c.findModule tree r' = .ok (.component variant', source) := by
  obtain ⟨hkind, hsource⟩ := findModule_eq_ok_iff.1 h
  exact findModule_eq_ok_iff.2 ⟨classify_component hkind hpath hvariant, hpath ▸ hsource⟩

end Config

namespace Server

open Config

variable {s s' : Server} {tree : FileTree} {reading : Nat} {r : Request} {served : Served}

/-- The specifiers that finishing a code asks a server for, in order. -/
def questions (s : Server) (tree : FileTree) (code : Text) : List Text :=
  (Import.resolveAll (Import.noted (s.config.resolution tree)) code (s.memo, [])).2.2

/-- Finishing a code has a result if everything that is asked for can be found in the files: what is
remembered was found once. -/
theorem exists_finish {code : Text} (h : ∀ spec ∈ s.questions tree code,
    ∃ resolved, Specifier.lookUp s.config tree spec = .ok resolved) (kind : ModuleKind) :
    ∃ body, (s.finish tree kind code).1 = .ok ⟨kind, body⟩ := by
  obtain ⟨text, htext⟩ : ∃ text,
      (Import.resolveAll (s.config.resolution tree) code s.memo).1 = .ok text := by
    refine Import.exists_resolveAll fun spec hspec memo => ?_
    obtain ⟨resolved, hresolved⟩ := h spec hspec
    rw [Config.resolution, Specifier.resolve]
    cases memo.get? spec with
    | some remembered => exact ⟨remembered.url, rfl⟩
    | none =>
      rw [hresolved]
      exact ⟨resolved.url, rfl⟩
  refine ⟨Utf8.encode text, ?_⟩
  simp only [finish, htext]
  rfl

/-- Behind a module that is served, if it is not the entry document, there are the text of the file,
the code that is made from it, and that code with its imports resolved. -/
theorem exists_of_served (h : s.handle tree reading r = (.ok served, s'))
    (hkind : served.kind ≠ .entry) :
    s.config.isEntry r = false ∧ ∃ source code text,
      s.config.findModule tree r = .ok (served.kind, source) ∧
        (moduleCode served.kind r.path source s.clock reading).1 = .ok code ∧
          (Import.resolveAll (s.config.resolution tree) code s.memo).1 = .ok text ∧
            served.body = Utf8.encode text := by
  rw [handle] at h
  cases hentry : s.config.isEntry r with
  | true =>
    rw [hentry, if_pos rfl] at h
    have hserved : s.config.readEntry tree = .ok served := by
      cases hread : s.config.readEntry tree with
      | error e =>
        rw [hread] at h
        cases h
      | ok document =>
        rw [hread] at h
        cases h
        rfl
    exact absurd (kind_of_readEntry hserved) hkind
  | false =>
    refine ⟨rfl, ?_⟩
    rw [hentry, if_neg Bool.false_ne_true, prepare] at h
    cases hfind : s.config.findModule tree r with
    | error e =>
      rw [hfind] at h
      cases h
    | ok found =>
      obtain ⟨kind, source⟩ := found
      rw [hfind] at h
      dsimp only at h
      rcases hcode : moduleCode kind r.path source s.clock reading with ⟨_ | code, clock⟩
      · rw [hcode] at h
        cases h
      · rw [hcode] at h
        dsimp only [Except.map, finish] at h
        rcases htext : Import.resolveAll (s.config.resolution tree) code s.memo
          with ⟨_ | text, memo⟩
        · rw [htext] at h
          cases h
        · rw [htext] at h
          cases h
          exact ⟨source, code, text, rfl, congrArg Prod.fst hcode, congrArg Prod.fst htext, rfl⟩

/-- What stands behind a module of a component that is served. -/
theorem exists_of_handle {variant : Variant} (h : s.handle tree reading r = (.ok served, s'))
    (hkind : served.kind = .component variant) :
    s.config.isEntry r = false ∧ ∃ source code text,
      s.config.findModule tree r = .ok (.component variant, source) ∧
        (moduleCode (.component variant) r.path source s.clock reading).1 = .ok code ∧
          (Import.resolveAll (s.config.resolution tree) code s.memo).1 = .ok text ∧
            served.body = Utf8.encode text := by
  have hne : served.kind ≠ .entry := by
    rw [hkind]
    exact nofun
  rw [← hkind]
  exact exists_of_served h hne

/-- The answer to a request for the template module of a component: without a template that can be
seen it is a failure, and with one that compiles it is a module, as long as the imports of its code
can be found. -/
theorem handle_template {path source : Text} {c : Component}
    (hentry : s.config.isEntry r = false) (hpath : r.path = path)
    (hfind : s.config.findModule tree r = .ok (.component .template, source))
    (hread : Component.read path source = .ok c) (reading : Nat) :
    (Component.visibleTemplate? c = none → (s.handle tree reading r).1 =
      Outcome.fail (.compileFailure path "component has no template".toList)) ∧
    ∀ block code, Component.visibleTemplate? c = some block →
      Render.compile .module block.content = .ok code →
      (∀ spec ∈ s.questions tree code.code,
        ∃ resolved, Specifier.lookUp s.config tree spec = .ok resolved) →
      ∃ body, (s.handle tree reading r).1 = .ok ⟨.component .template, body⟩ := by
  subst hpath
  have hcode : moduleCode (.component .template) r.path source s.clock reading =
      (Component.templateModule Component.compiler r.path source c, s.clock) := by
    rw [moduleCode, hread]
    rfl
  rw [handle, if_neg (by simp [hentry]), prepare, hfind]
  dsimp only
  rw [hcode]
  refine ⟨fun hnone => ?_, fun block code hsome hcompile hasked => ?_⟩
  · rw [Component.templateModule, hnone]
    rfl
  · have hmodule : Component.templateModule Component.compiler r.path source c = .ok code.code := by
      rw [Component.templateModule, hsome]
      dsimp only [Component.compiler]
      rw [hcompile]
      rfl
    rw [hmodule]
    exact exists_finish hasked (.component .template)

/-- A main module that is served starts, before its imports are resolved, with an import of the
template module of the same component, and what is served starts with it too if the path has no
semicolon. Whoever has asked for the main module gets the template module at that address, from a
server of the same configuration over the same files, if there is a template that compiles and the
imports of its code can be found; a component without a template, or with a blank one, is always
refused it. -/
theorem handle_templateUrl {raw : Text} {query : Option Text}
    (hmain : s.handle tree reading (.ofRaw raw query) = (.ok served, s'))
    (hkind : served.kind = .component .main) :
    ∃ source c url behind text,
      let path := (Request.ofRaw raw query).path
      s.config.readSource tree path = .ok source ∧ Component.read path source = .ok c ∧
      '"' ∉ url ∧ '\n' ∉ url ∧ served.body = Utf8.encode text ∧
      (Import.resolveAll (s.config.resolution tree)
        (Component.importStart ++ url ++ ['"', '\n'] ++ behind) s.memo).1 = .ok text ∧
      (';' ∉ path → ∃ behind', text = Component.importStart ++ url ++ ['"', '\n'] ++ behind') ∧
      ∃ rawUrl queryUrl, cut? ['?'] url = some (rawUrl, queryUrl) ∧
        ∀ (t : Server) (later : Nat), t.config = s.config →
          let answer := (t.handle tree later (.ofRaw rawUrl (some queryUrl))).1
          (Component.visibleTemplate? c = none →
            answer = Outcome.fail (.compileFailure path "component has no template".toList)) ∧
          ∀ block code, Component.visibleTemplate? c = some block →
            Render.compile .module block.content = .ok code →
            (∀ spec ∈ t.questions tree code.code,
              ∃ resolved, Specifier.lookUp s.config tree spec = .ok resolved) →
            ∃ body, answer = .ok ⟨.component .template, body⟩ := by
  obtain ⟨hentry, source, code, text, hfind, hcode, htext, hbody⟩ := exists_of_handle hmain hkind
  have hslash := head?_path_ofRaw raw query
  generalize hr : Request.ofRaw raw query = r at hmain hentry hfind hcode hslash ⊢
  obtain ⟨c, hread, rfl⟩ : ∃ c, Component.read r.path source = .ok c ∧
      code = Component.mainModule r.path (s.clock.tick reading) c := by
    rw [moduleCode] at hcode
    cases hread : Component.read r.path source with
    | error e =>
      rw [hread] at hcode
      cases hcode
    | ok c =>
      rw [hread] at hcode
      cases hcode
      exact ⟨c, rfl, rfl⟩
  obtain ⟨behind, hbehind⟩ := Component.mainModule_eq r.path (s.clock.tick reading) c
  obtain ⟨rawUrl, queryUrl, hcut, hrequest⟩ :=
    Component.ofRaw_templateUrl hslash (s.clock.tick reading)
  generalize hurl : Component.templateUrl r.path (s.clock.tick reading) = url at hbehind hcut
  have hquote : '"' ∉ url :=
    hurl ▸ Component.not_mem_templateUrl (by decide) (by decide) (by decide) (by decide) r.path _
  have hline : '\n' ∉ url :=
    hurl ▸ Component.not_mem_templateUrl (by decide) (by decide) (by decide) (by decide) r.path _
  rw [hbehind] at htext
  refine ⟨source, c, url, behind, text, (findModule_eq_ok_iff.1 hfind).2, hread, hquote, hline,
    hbody, htext, fun hsemicolon => ?_, rawUrl, queryUrl, hcut, ?_⟩
  · subst hurl
    obtain ⟨-, -, path', -, behind', -, -, hsame, rfl⟩ := Import.resolveAll_templateUrl hslash
      (Prod.ext htext rfl)
    obtain rfl := hsame (Import.mistaken_eq_nil hsemicolon)
    exact ⟨behind', rfl⟩
  · intro t later hconfig
    rw [hrequest]
    generalize hasked : Request.mk r.path [("type".toList, "template".toList),
      ("d".toList, decimal (s.clock.tick reading))] = asked
    have hpath : asked.path = r.path := hasked ▸ rfl
    have hvariant : asked.variant = .ok .template := hasked ▸ rfl
    have hnot : s.config.isEntry asked = false := by
      rw [Config.isEntry, hpath]
      exact hentry
    rw [← hconfig] at hnot hfind ⊢
    exact handle_template hnot hpath (findModule_component hfind hpath hvariant) hread later

/-- A project of one component, with the package that render functions are made of installed. -/
def oneComponent (source : Text) : FileTree :=
  .folder [("p".toList, .folder [
    ("App.vue".toList, .file (Utf8.encode source)),
    ("node_modules".toList, .folder [("vue".toList, .folder [
      ("package.json".toList, .file (Utf8.encode "\x7b\"module\":\"v.js\"\x7d".toList))])])])]

theorem handle_templateUrl_oneComponent :
    let s := start { root := "/p".toList }
    let tree := oneComponent "<template><p/></template>".toList
    let main := s.handle tree 7 (.ofRaw "/App.vue".toList none)
    ∃ url behind rawUrl queryUrl template,
      main.1 = .ok ⟨.component .main,
        Utf8.encode (Component.importStart ++ url ++ ['"', '\n'] ++ behind)⟩ ∧
      cut? ['?'] url = some (rawUrl, queryUrl) ∧
      (main.2.handle tree 8 (.ofRaw rawUrl (some queryUrl))).1 =
        .ok ⟨.component .template, template⟩ := by
  intro s tree main
  have hserved : main.1.map Served.kind = .ok (.component .main) := by decide +kernel
  obtain ⟨served, hserved, hkind⟩ := Render.map_eq_ok.1 hserved
  have hmain : s.handle tree 7 (.ofRaw "/App.vue".toList none) = (.ok served, main.2) :=
    Prod.ext hserved rfl
  obtain ⟨source, c, url, behind, text, hsource, hread, -, -, hbody, -, hfirst, rawUrl, queryUrl,
    hcut, hanswer⟩ := handle_templateUrl hmain hkind.symm
  obtain ⟨behind', rfl⟩ := hfirst (by decide +kernel)
  -- the file is the one of the project, and its template compiles
  have hfile : s.config.readSource tree (Request.ofRaw "/App.vue".toList none).path =
      .ok "<template><p/></template>".toList := by decide +kernel
  obtain rfl : source = "<template><p/></template>".toList :=
    Except.ok.inj (hsource.symm.trans hfile)
  have hblock : (Component.read (Request.ofRaw "/App.vue".toList none).path
      "<template><p/></template>".toList).map
        (fun c => (Component.visibleTemplate? c).map Block.content) = .ok (some "<p/>".toList) := by
    decide +kernel
  rw [hread] at hblock
  obtain ⟨block, hblock, hcontent⟩ := Option.map_eq_some_iff.1 (Except.ok.inj hblock)
  -- its code asks for the package alone, which is there
  have hcode : (Render.compile .module block.content).map
      (fun code => main.2.questions tree code.code) = .ok ["vue".toList] := by
    rw [hcontent]
    decide +kernel
  obtain ⟨code, hcompile, hasked⟩ := Render.map_eq_ok.1 hcode
  have hvue : (Specifier.lookUp s.config tree "vue".toList).map (fun _ => ()) = .ok () := by
    decide +kernel
  obtain ⟨vue, hvue, -⟩ := Render.map_eq_ok.1 hvue
  have hfound : ∀ spec ∈ main.2.questions tree code.code,
      ∃ resolved, Specifier.lookUp s.config tree spec = .ok resolved := by
    rw [← hasked]
    intro spec hspec
    rw [List.mem_singleton.1 hspec]
    exact ⟨vue, hvue⟩
  obtain ⟨template, htemplate⟩ :=
    (hanswer main.2 8 (Session.config_handle ..)).2 block code hblock hcompile hfound
  refine ⟨url, behind', rawUrl, queryUrl, template, ?_, hcut, htemplate⟩
  rw [← hbody, hkind]
  exact hserved

/-- The main module of a component with nothing but a script imports a template module that is
refused. -/
theorem handle_templateUrl_of_no_template :
    let s := start { root := "/p".toList }
    let tree := oneComponent "<script>export default \x7b\x7d</script>".toList
    let main := s.handle tree 7 (.ofRaw "/App.vue".toList none)
    main.1 = .ok ⟨.component .main, Utf8.encode (Component.importStart ++
        "/App.vue?type=template&d=7".toList ++ ['"', '\n'] ++
        "const _sfc_main = \x7b\x7d\n_sfc_main.render = _sfc_render\n".toList ++
        "export default _sfc_main\n".toList)⟩ ∧
      (main.2.handle tree 8 (.ofRaw "/App.vue".toList (some "type=template&d=7".toList))).1 =
        Outcome.fail (.compileFailure "/App.vue".toList "component has no template".toList) := by
  decide +kernel

end Server

end ModuleServer
