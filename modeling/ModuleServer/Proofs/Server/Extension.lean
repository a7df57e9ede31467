import ModuleServer.Proofs.Files.Components
import ModuleServer.Proofs.Server.Linked

/-!
# Files of the kinds that are served

What a request is served as is read off the last segment of its path, the text behind the last
slash; the file is found by following the path with backslashes taken for slashes. The two agree on
the name of the file as far as its extension goes (`Path.fileName?_of_last`): an extension holds
neither a dot nor a slash, so what ends with it is a name that is followed, whatever is written
before it.

* `Request.extension?_eq_some_iff` says what the extension of a path is.
* `Server.handle_extension`: what is served is the file at the path, and its name ends with an
  extension of its kind; a path without such an extension is refused, and no other is, for that
  reason, in every tree.
-/

namespace ModuleServer

open Text

/-! ## Extensions of paths -/

namespace Request

/-- The last segment of a path stands behind its last slash. -/
theorem lastSegment_spec (path : Text) :
    ∃ front, path = front ++ lastSegment path ∧ '/' ∉ lastSegment path ∧
      (front = [] ∨ front.getLast? = some '/') := by
  unfold lastSegment
  cases hsplit : splitLast? (· = '/') path with
  | none =>
    have hnone := splitLast?_eq_none_iff.1 hsplit
    refine ⟨[], rfl, fun hmem => ?_, .inl rfl⟩
    exact of_decide_eq_false (hnone '/' hmem) rfl
  | some parts =>
    obtain ⟨front, segment⟩ := parts
    obtain ⟨c, hc, rfl, hsegment⟩ := splitLast?_eq_some_iff.1 hsplit
    obtain rfl := of_decide_eq_true hc
    refine ⟨front ++ ['/'], by simp, fun hmem => ?_, .inr List.getLast?_concat⟩
    exact of_decide_eq_false (hsegment '/' hmem) rfl

/-- The extension of a path stands behind the last dot of its last segment. Neither it nor what
stands before the dot is empty. -/
theorem extension?_eq_some_iff {r : Request} {ext : Text} :
    r.extension? = some ext ↔
      ext ≠ [] ∧ '.' ∉ ext ∧ ∃ stem, stem ≠ [] ∧ lastSegment r.path = stem ++ '.' :: ext := by
  unfold extension?
  constructor
  · intro h
    split at h
    · rename_i stem ext' hsplit
      split at h
      · cases h
      · rename_i hne
        cases h
        simp only [Bool.or_eq_true, List.isEmpty_iff, not_or] at hne
        obtain ⟨c, hc, hsegment, hext⟩ := splitLast?_eq_some_iff.1 hsplit
        obtain rfl := of_decide_eq_true hc
        exact ⟨hne.2, fun hmem => of_decide_eq_false (hext '.' hmem) rfl, stem, hne.1, hsegment⟩
    · cases h
  · rintro ⟨hext, hdot, stem, hstem, hsegment⟩
    have hsplit : splitLast? (· = '.') (lastSegment r.path) = some (stem, ext) := by
      refine splitLast?_eq_some_iff.2 ⟨'.', decide_eq_true rfl, hsegment, fun d hd => ?_⟩
      refine decide_eq_false ?_
      rintro rfl
      exact hdot hd
    rw [hsplit]
    simp [hstem, hext]

end Request

/-! ## Extensions that are served -/

namespace Config

/-- Whether files with an extension are served as a kind. -/
def Admits (c : Config) (ext : Text) : ModuleKind → Prop
  | .entry => False
  | .script => ext ∈ c.scriptExtensions
  | .component _ => ext = c.componentExtension

/-- Whether the last segment of a path ends with an extension that is served. -/
def HasExtension (c : Config) (path : Text) : Prop :=
  ∃ stem ext, Request.lastSegment path = stem ++ '.' :: ext ∧ stem ≠ [] ∧ ext ≠ [] ∧ '.' ∉ ext ∧
    (ext ∈ c.scriptExtensions ∨ ext = c.componentExtension)

section Kinds

variable {c : Config} {r : Request} {kind : ModuleKind} {tree : FileTree}

/-- A request is served as a kind that admits the extension of its path. -/
theorem admits_of_classify (h : c.classify r = .ok kind) :
    ∃ ext, r.extension? = some ext ∧ c.Admits ext kind := by
  rw [classify] at h
  cases hext : r.extension? with
  | none =>
    rw [hext] at h
    cases h
  | some ext =>
    rw [hext] at h
    dsimp only at h
    refine ⟨ext, rfl, ?_⟩
    split at h
    · rename_i hscript
      cases h
      exact List.contains_iff_mem.1 hscript
    split at h
    · rename_i hcomponent
      cases hvariant : r.variant with
      | error e =>
        rw [hvariant] at h
        cases h
      | ok variant =>
        rw [hvariant] at h
        cases h
        exact hcomponent
    · cases h

/-- A path is of no kind exactly if it has no extension that is served. -/
theorem classify_eq_unsupported_iff :
    c.classify r = .error (.unsupportedExtension r.path) ↔ ¬c.HasExtension r.path := by
  rw [classify]
  cases hext : r.extension? with
  | none =>
    refine ⟨fun _ => ?_, fun _ => rfl⟩
    rintro ⟨stem, ext, hsegment, hstem, hne, hdot, -⟩
    have hsome := Request.extension?_eq_some_iff.2 ⟨hne, hdot, stem, hstem, hsegment⟩
    cases hext.symm.trans hsome
  | some ext =>
    obtain ⟨hne, hdot, stem, hstem, hsegment⟩ := Request.extension?_eq_some_iff.1 hext
    dsimp only
    split
    · rename_i hscript
      refine ⟨fun h => (by cases h), fun hnone => absurd ?_ hnone⟩
      exact ⟨stem, ext, hsegment, hstem, hne, hdot, .inl (List.contains_iff_mem.1 hscript)⟩
    rename_i hscript
    split
    · rename_i hcomponent
      refine ⟨fun h => ?_, fun hnone => absurd ?_ hnone⟩
      · -- the other reason for a refusal is another failure
        unfold Request.variant at h
        split at h
        · cases h
        split at h
        · cases h
        · cases h
      · exact ⟨stem, ext, hsegment, hstem, hne, hdot, .inr hcomponent⟩
    rename_i hcomponent
    refine ⟨fun _ => ?_, fun _ => rfl⟩
    rintro ⟨stem', ext', hsegment', hstem', hne', hdot', hserved⟩
    have hsome := Request.extension?_eq_some_iff.2 ⟨hne', hdot', stem', hstem', hsegment'⟩
    obtain rfl : ext = ext' := Option.some.inj (hext.symm.trans hsome)
    rcases hserved with hserved | hserved
    · exact hscript (List.contains_iff_mem.2 hserved)
    · exact hcomponent hserved

/-- Behind a source that has been read there is the file at its path. -/
theorem readSource_eq_ok {path source : Text} (h : c.readSource tree path = .ok source) :
    ∃ file, c.filePath path = .ok file ∧ tree.readText file = .ok source := by
  rw [readSource] at h
  obtain ⟨file, hfile, h⟩ := Render.bind_eq_ok.1 h
  refine ⟨file, hfile, ?_⟩
  split at h
  · rename_i hsource
    cases h
    exact hsource
  · cases h

theorem filePath_eq_ok {path : Text} {file : Path} :
    c.filePath path = .ok file ↔ Path.underRoot? c.root path = some file := by
  rw [filePath]
  cases Path.underRoot? c.root path with
  | none => exact ⟨nofun, nofun⟩
  | some found => simp

/-- A file can only fail to be read for where it is. -/
theorem readSource_ne_unsupported {path other : Text} :
    c.readSource tree path ≠ .error (.unsupportedExtension other) := by
  intro h
  rw [readSource, filePath] at h
  cases hfile : Path.underRoot? c.root path with
  | none =>
    rw [hfile] at h
    cases h
  | some file =>
    rw [hfile] at h
    simp only [bind, Except.bind] at h
    split at h <;> cases h

/-- The entry document can only fail to be read for where it is. -/
theorem readEntry_ne_unsupported {other : Text} :
    c.readEntry tree ≠ .error (.unsupportedExtension other) := by
  intro h
  rw [readEntry, filePath] at h
  cases hfile : Path.underRoot? c.root c.entryPath with
  | none =>
    rw [hfile] at h
    cases h
  | some file =>
    rw [hfile] at h
    simp only [bind, Except.bind] at h
    split at h <;> cases h

theorem classify_of_findModule {other : Text}
    (h : c.findModule tree r = .error (.unsupportedExtension other)) :
    c.classify r = .error (.unsupportedExtension other) := by
  rw [findModule] at h
  cases hkind : c.classify r with
  | error e =>
    rw [hkind] at h
    cases h
    rfl
  | ok kind =>
    rw [hkind] at h
    cases hsource : c.readSource tree r.path with
    | error e =>
      rw [hsource] at h
      cases h
      exact absurd hsource readSource_ne_unsupported
    | ok source =>
      rw [hsource] at h
      cases h

/-- Where there are no files no module is found. -/
theorem findModule_empty (found : ModuleKind × Text) :
    c.findModule (.folder []) r ≠ .ok found := by
  intro h
  obtain ⟨-, hsource⟩ := findModule_eq_ok_iff.1 h
  obtain ⟨file, -, hread⟩ := readSource_eq_ok hsource
  exact FileTree.readText_empty hread

end Kinds

end Config

/-! ## The name of the file -/

/-- A name that ends with an extension is an ordinary segment. -/
theorem Path.ordinary_of_extension {stem ext : Text} (hne : ext ≠ []) (hdot : '.' ∉ ext)
    (h : ∀ c ∈ stem ++ '.' :: ext, isSeparator c = false) : Ordinary (stem ++ '.' :: ext) := by
  obtain ⟨front, c, rfl⟩ := (List.eq_nil_or_concat ext).resolve_left hne
  have hlast : ∀ t : Text, t.getLast? = some '.' → stem ++ '.' :: (front.concat c) ≠ t := by
    rintro t ht rfl
    have hc : (stem ++ '.' :: front.concat c).getLast? = some c := by
      rw [List.concat_eq_append, ← List.cons_append, ← List.append_assoc, List.getLast?_concat]
    obtain rfl : c = '.' := Option.some.inj (hc.symm.trans ht)
    exact hdot (by simp)
  exact ⟨by simp, hlast _ rfl, hlast _ rfl, h⟩

/-- The file at a path has a name that ends with the extension of the path. -/
theorem Request.fileName?_of_extension {root file : Path} {r : Request} {ext : Text}
    (hext : r.extension? = some ext) (hslash : '\\' ∉ ext)
    (h : Path.underRoot? root r.path = some file) :
    ∃ stem, Path.fileName? file = some (stem ++ '.' :: ext) := by
  obtain ⟨hne, hdot, stem, -, hsegment⟩ := extension?_eq_some_iff.1 hext
  obtain ⟨front, hpath, hlast, -⟩ := lastSegment_spec r.path
  rw [hsegment] at hpath hlast
  have hfree : ∀ c ∈ '.' :: ext, Path.isSeparator c = false := by
    intro c hc
    have hne' : c ≠ '/' := by
      rintro rfl
      exact hlast (List.mem_append_right _ hc)
    have hne'' : c ≠ '\\' := by
      rintro rfl
      exact hslash ((List.mem_cons.1 hc).resolve_left (by decide))
    simp [Path.isSeparator, hne', hne'']
  obtain ⟨before, v, hpieces⟩ := exists_pieces_append hfree (front ++ stem)
  rw [List.append_assoc, ← hpath] at hpieces
  have hmem : v ++ '.' :: ext ∈ pieces Path.isSeparator r.path := by
    rw [hpieces]
    simp
  have hname : ∀ c ∈ v ++ '.' :: ext, Path.isSeparator c = false := separator_of_mem_pieces hmem
  exact ⟨v, Path.fileName?_of_last hpieces (Path.ordinary_of_extension hne hdot hname) h⟩

/-! ## Requests -/

namespace Server

/-- What is served, if it is not the entry document, is made from the file at the path of the
request, and the name of that file ends with an extension of its kind. -/
theorem file_of_served {s s' : Server} {r : Request} {tree : FileTree} {reading : Nat}
    {served : Served} (hscript : ∀ ext ∈ s.config.scriptExtensions, '\\' ∉ ext)
    (hcomponent : '\\' ∉ s.config.componentExtension)
    (h : s.handle tree reading r = (.ok served, s')) (hkind : served.kind ≠ .entry) :
    ∃ file source code text stem ext, s.config.filePath r.path = .ok file ∧
      (s.reads tree reading r).head? = some file ∧ tree.readText file = .ok source ∧
      (moduleCode served.kind r.path source s.clock reading).1 = .ok code ∧
      (Import.resolveAll (s.config.resolution tree) code s.memo).1 = .ok text ∧
      served.body = Utf8.encode text ∧ Path.fileName? file = some (stem ++ '.' :: ext) ∧
      s.config.Admits ext served.kind := by
  obtain ⟨hentry, source, code, text, hfind, hcode, htext, hbody⟩ := exists_of_served h hkind
  obtain ⟨hclassify, hsource⟩ := Config.findModule_eq_ok_iff.1 hfind
  obtain ⟨file, hfile, hread⟩ := Config.readSource_eq_ok hsource
  obtain ⟨ext, hext, hadmits⟩ := Config.admits_of_classify hclassify
  have hslash : '\\' ∉ ext := by
    cases hcase : served.kind with
    | entry => exact absurd hcase hkind
    | script =>
      rw [hcase] at hadmits
      exact hscript ext hadmits
    | component variant =>
      rw [hcase] at hadmits
      obtain rfl : ext = s.config.componentExtension := hadmits
      exact hcomponent
  obtain ⟨stem, hname⟩ :=
    Request.fileName?_of_extension hext hslash (Config.filePath_eq_ok.1 hfile)
  refine ⟨file, source, code, text, stem, ext, hfile, ?_, hread, hcode, htext, hbody, hname,
    hadmits⟩
  simp [reads, hentry, Config.moduleFiles, hclassify, hfile, Except.toOption]

/-- A request without an extension that is served is refused in every tree. -/
theorem handle_of_no_extension {s : Server} {r : Request} (hentry : s.config.isEntry r = false)
    (h : ¬s.config.HasExtension r.path) (tree : FileTree) (reading : Nat) :
    s.handle tree reading r = (Outcome.fail (.unsupportedExtension r.path), s) := by
  have hfind : s.config.findModule tree r = .error (.unsupportedExtension r.path) := by
    rw [Config.findModule, Config.classify_eq_unsupported_iff.2 h]
    rfl
  rw [handle, hentry, if_neg Bool.false_ne_true, prepare, hfind]
  rfl

/-- Without any files a request is refused for its extension only if it has none that is served. -/
theorem no_extension_of_handle {s : Server} {r : Request} {reading : Nat}
    (h : s.handle (.folder []) reading r = (Outcome.fail (.unsupportedExtension r.path), s)) :
    s.config.isEntry r = false ∧ ¬s.config.HasExtension r.path := by
  rw [handle] at h
  cases hentry : s.config.isEntry r with
  | true =>
    rw [hentry, if_pos rfl] at h
    cases hread : s.config.readEntry (.folder []) with
    | error e =>
      rw [hread] at h
      cases h
      exact absurd hread Config.readEntry_ne_unsupported
    | ok served =>
      rw [hread] at h
      cases h
  | false =>
    refine ⟨rfl, Config.classify_eq_unsupported_iff.1 ?_⟩
    rw [hentry, if_neg Bool.false_ne_true, prepare] at h
    cases hfind : s.config.findModule (.folder []) r with
    | error e =>
      rw [hfind] at h
      cases h
      exact Config.classify_of_findModule hfind
    | ok found => exact absurd hfind (Config.findModule_empty found)

/-- No path gets around the extensions. What is served, if it is not the entry document, is made
from the file at the path of the request, and the name of that file ends with an extension that its
kind admits, as long as no backslash stands in a configured extension. A request is refused for its
extension in every tree exactly if it is not for the entry document and the last segment of its path
does not end with an extension that is served. -/
theorem handle_extension (s : Server) (r : Request)
    (hscript : ∀ ext ∈ s.config.scriptExtensions, '\\' ∉ ext)
    (hcomponent : '\\' ∉ s.config.componentExtension) :
    (∀ tree reading served s', s.handle tree reading r = (.ok served, s') → served.kind ≠ .entry →
      ∃ file source code text stem ext, s.config.filePath r.path = .ok file ∧
        (s.reads tree reading r).head? = some file ∧ tree.readText file = .ok source ∧
        (moduleCode served.kind r.path source s.clock reading).1 = .ok code ∧
        (Import.resolveAll (s.config.resolution tree) code s.memo).1 = .ok text ∧
        served.body = Utf8.encode text ∧ Path.fileName? file = some (stem ++ '.' :: ext) ∧
        s.config.Admits ext served.kind) ∧
    ((∀ tree reading, s.handle tree reading r =
        (Outcome.fail (.unsupportedExtension r.path), s)) ↔
      s.config.isEntry r = false ∧ ¬s.config.HasExtension r.path) := by
  refine ⟨fun tree reading served s' h hkind => file_of_served hscript hcomponent h hkind, ?_⟩
  constructor
  · intro h
    -- a tree without files leaves no other reason
    exact no_extension_of_handle (h (.folder []) 0)
  · rintro ⟨hentry, hnone⟩ tree reading
    exact handle_of_no_extension hentry hnone tree reading

/-- A script is served at a path of slashes, backslashes and dots, and text behind a backslash at
the end of its path is refused. -/
theorem handle_extension_mixedPath :
    let s := start { root := "/p".toList }
    let tree := FileTree.folder [("p".toList, .folder [
      ("main.js".toList, .file (Utf8.encode "f()".toList))])]
    let script := Request.ofRaw "lib%5C..%2F.//%6Dain.js".toList none
    let text := Request.ofRaw "/main.js%5Cnotes.txt".toList none
    (∃ file stem, (s.handle tree 7 script).1 = .ok ⟨.script, Utf8.encode "f()".toList⟩ ∧
      (s.reads tree 7 script).head? = some file ∧ s.config.filePath script.path = .ok file ∧
      Path.fileName? file = some (stem ++ ".js".toList)) ∧
    ∀ other reading, s.handle other reading text =
      (Outcome.fail (.unsupportedExtension "/main.js\\notes.txt".toList), s) := by
  intro s tree script text
  have hscript : ∀ ext ∈ s.config.scriptExtensions, '\\' ∉ ext := by decide
  have hcomponent : '\\' ∉ s.config.componentExtension := by decide
  constructor
  · have hserved : s.handle tree 7 script =
        (.ok ⟨.script, Utf8.encode "f()".toList⟩, s) := by decide +kernel
    obtain ⟨file, -, -, -, stem, ext, hfile, hread, -, -, -, -, hname, -⟩ :=
      (handle_extension s script hscript hcomponent).1 tree 7 _ _ hserved nofun
    have hplace : s.config.filePath script.path = .ok "/p/main.js".toList := by decide +kernel
    obtain rfl : "/p/main.js".toList = file := Except.ok.inj (hplace.symm.trans hfile)
    exact ⟨_, "main".toList, congrArg Prod.fst hserved, hread, hfile, by decide +kernel⟩
  · have hpath : text.path = "/main.js\\notes.txt".toList := by decide +kernel
    have hnone : s.config.classify text = .error (.unsupportedExtension text.path) := by
      decide +kernel
    rw [← hpath]
    exact (handle_extension s text hscript hcomponent).2.2
      ⟨by decide +kernel, Config.classify_eq_unsupported_iff.1 hnone⟩

end Server

end ModuleServer
