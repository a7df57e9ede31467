import ModuleServer.Proofs.Component.Link
import ModuleServer.Proofs.Files.Components
import ModuleServer.Specifier.Resolve

/-!
# Addresses of packages

The file of a package is found in two ways: from the dependency directory, as the manifest of the
package is, and through the root, as any request is. Where the dependency directory lies below the
root (`Config.DepsInside`) both lead to the same place (`components_packageUrl`), and an address
without percent signs is asked for as it is written (`path_ofRaw`).

* `lookUp_eq_ok`, `manifest_eq_ok`, `target_eq_ok`: what has been read where something was found.
-/

namespace ModuleServer

open Text

/-! ## Asking for an address -/

theorem path_ofRaw {url : Text} (hslash : url.head? = some '/') (hpercent : '%' ∉ url)
    (query : Option Text) : (Request.ofRaw url query).path = url := by
  rw [Request.ofRaw, Percent.decodeText_of_no_percent hpercent]
  exact if_pos hslash

namespace Specifier

/-! ## What has been read -/

theorem ordinary_manifestName : Path.Ordinary manifestName where
  ne_nil := by decide
  ne_here := by decide
  ne_up := by decide
  no_separator := by
    have hall : manifestName.all (fun c => !Path.isSeparator c) := by decide
    intro c hc
    simpa using List.all_eq_true.1 hall c hc

section Read

variable {c : Config} {tree : FileTree} {package spec : Text} {m : Json.Document}

theorem manifest_eq_ok : manifest c tree package = .ok m ↔
    ∃ dir source, Path.underRoot? c.depsPath package = some dir ∧
      tree.readText (dir.join manifestName) = .ok source ∧
      Json.Document.parseStrict? source = some m := by
  unfold manifest
  cases Path.underRoot? c.depsPath package with
  | none => simp
  | some dir =>
    cases hread : tree.readText (dir.join manifestName) with
    | error e => simp [hread, Except.toOption]
    | ok source =>
      cases hparse : Json.Document.parseStrict? source with
      | none => simp [hread, hparse, Except.toOption]
      | some m' => simp [hread, hparse, Except.toOption]

theorem target_eq_ok {subpath : Option Text} {path : Text} :
    target c m package subpath = .ok path ↔
      subpath = some path ∨ subpath = none ∧ entry? c.entryField m = some path := by
  cases subpath with
  | some path' => simp [target]
  | none => cases hentry : entry? c.entryField m <;> simp [target, hentry]

theorem lookUp_eq_ok {r : Resolved} : lookUp c tree spec = .ok r ↔
    split spec = (r.package, r.subpath) ∧ ∃ m path, manifest c tree r.package = .ok m ∧
      target c m r.package r.subpath = .ok path ∧ r.url = packageUrl c r.package path := by
  rcases hsplit : split spec with ⟨name, rest⟩
  constructor
  · intro h
    simp only [lookUp, hsplit] at h
    cases hm : manifest c tree name with
    | error e =>
      rw [hm] at h
      cases h
    | ok m =>
      rw [hm] at h
      cases hpath : target c m name rest with
      | error e =>
        simp only [Except.bind, bind, hpath] at h
        cases h
      | ok path =>
        simp only [Except.bind, bind, hpath] at h
        obtain rfl := Except.ok.inj h
        exact ⟨rfl, m, path, hm, hpath, rfl⟩
  · rintro ⟨heq, m, path, hm, hpath, hurl⟩
    obtain ⟨rfl, rfl⟩ := Prod.mk.inj heq
    simp only [lookUp, hsplit, hm, hpath, Except.bind, bind]
    rw [← hurl]
    rfl

end Read

end Specifier

/-! ## From the root and from the dependencies -/

/-- The dependency directory is named from the root, and by names alone. -/
structure Config.DepsInside (c : Config) : Prop where
  root_ne_nil : c.root ≠ []
  relative : c.depsDir.head? ≠ some '/'
  no_backslash : '\\' ∉ c.depsDir
  no_up : ['.', '.'] ∉ Path.parts c.depsDir

theorem slash_isSeparator (x : Char) (hx : decide (x = '/')) : Path.isSeparator x := by
  rw [of_decide_eq_true hx]
  rfl

namespace Config.DepsInside

variable {c : Config} (hc : c.DepsInside)
include hc

theorem mountPath_eq : c.mountPath = '/' :: stripBoth (· = '/') c.depsDir := by
  rw [mountPath, replaceChar_of_not_mem hc.no_backslash]

theorem components_depsPath :
    Path.components c.depsPath = Path.components c.root ++ (Path.names c.depsDir).map .entry := by
  rw [depsPath, Path.components_join hc.root_ne_nil hc.relative,
    Path.steps_eq_names hc.no_backslash hc.no_up]

theorem names_mountPath : Path.names c.mountPath = Path.names c.depsDir := by
  have hhead : ['/'].all Path.isSeparator := by decide
  rw [hc.mountPath_eq, ← List.singleton_append, Path.names_separators_append hhead,
    Path.names_stripBoth slash_isSeparator]

theorem no_up_mountPath : ['.', '.'] ∉ pieces Path.isSeparator c.mountPath := by
  have hcut : pieces Path.isSeparator c.mountPath =
      [] :: pieces Path.isSeparator (stripBoth (· = '/') c.depsDir) := by
    rw [hc.mountPath_eq]
    exact pieces_append (s := []) rfl _
  have hup := hc.no_up
  rw [← Path.pieces_eq_parts hc.no_backslash, ← Path.mem_pieces_stripBoth slash_isSeparator
    (List.cons_ne_nil _ _)] at hup
  rw [hcut, List.mem_cons, not_or]
  exact ⟨List.cons_ne_nil _ _, hup⟩

/-- The address of a package's file leads from the root to where the name of the package and the
path of the file lead from the dependency directory. -/
theorem components_packageUrl {package path : Text} {f : Path}
    (hf : Path.underRoot? c.depsPath (package ++ '/' :: path) = some f) :
    ∃ g, Path.underRoot? c.root (Specifier.packageUrl c package path) = some g ∧
      Path.components g = Path.components f := by
  obtain ⟨segments, hsegments, rfl⟩ := Option.map_eq_some_iff.1 hf
  have hordinary := Path.ordinary_of_segments? hsegments
  have hurl : Specifier.packageUrl c package path =
      c.mountPath ++ '/' :: (package ++ '/' :: path) := by
    rw [Specifier.packageUrl, List.append_assoc, List.cons_append]
  have hsegments' : Path.segments? (Specifier.packageUrl c package path) =
      some (Path.names c.depsDir ++ segments) := by
    rw [hurl, Path.segments?_behind hc.no_up_mountPath hsegments, hc.names_mountPath]
  refine ⟨_, Option.map_eq_some_iff.2 ⟨_, hsegments', rfl⟩, ?_⟩
  have hnames : ∀ s ∈ Path.names c.depsDir ++ segments, Path.Ordinary s := by
    intro s hs
    rcases List.mem_append.1 hs with hs | hs
    · exact Path.ordinary_of_mem_names hs
    · exact hordinary s hs
  rw [Path.components_foldl_join _ hnames, Path.components_foldl_join _ hordinary,
    hc.components_depsPath, List.map_append, List.append_assoc]

end Config.DepsInside

end ModuleServer
