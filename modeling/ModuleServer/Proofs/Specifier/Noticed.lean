import ModuleServer.Proofs.Files.Change
import ModuleServer.Proofs.Specifier.Address
import ModuleServer.Specifier.Change

/-!
# Which changes are noticed

A change at one place can alter what a specifier stands for only if the path to the manifest of its
package enters the place (`enters_of_lookUp_ne`). The filter for changes lets everything through
that is at most one name below the dependency directory, and further down whatever has the name of a
file that says what is installed (`affectsResolution_iff`). So it misses what the path to the
manifest enters further down: the directory of a package whose name leads through two folders or
more, as the one of a scoped package does (`affectsResolution_sound`).
-/

namespace ModuleServer.Specifier

open Text FileTree

/-! ## The filter -/

/-- A path at or below the dependency directory is let through if it is at most one name below it,
or ends in the name of a file that says what is installed. -/
theorem affectsResolution_iff {path deps : Path} {names : List Text}
    (h : path.components = deps.components ++ names.map .entry) :
    affectsResolution path deps = true ↔
      names.length ≤ 1 ∨ ∃ name, names.getLast? = some name ∧ name ∈ resolutionFiles := by
  rcases List.eq_nil_or_concat' names with rfl | ⟨front, last, rfl⟩
  · have hsame : path.components = deps.components := by simpa using h
    simp [affectsResolution, hsame]
  · have hcomponents : path.components =
        (deps.components ++ front.map .entry) ++ [.entry last] := by
      simpa using h
    have hself : path.components ≠ deps.components := by
      intro hsame
      have hlength := congrArg List.length (hcomponents.symm.trans hsame)
      simp at hlength
    have hparent : path.parent? = some (deps.components ++ front.map .entry) := by
      rw [Path.parent?, hcomponents, List.getLast?_concat, List.dropLast_concat]
    have hname : path.fileName? = some last := by
      rw [Path.fileName?, hcomponents, List.getLast?_concat]
    simp [affectsResolution, hself, hparent, hname]

/-! ## What specifiers depend on -/

section Dependence

variable {c : Config} {t₁ t₂ : FileTree} {spec : Text} {place : List Text}

/-- What a specifier stands for depends on the manifest of its package. -/
theorem lookUp_congr (h : manifest c t₁ (split spec).1 = manifest c t₂ (split spec).1) :
    lookUp c t₁ spec = lookUp c t₂ spec := by
  rcases hsplit : split spec with ⟨package, subpath⟩
  rw [hsplit] at h
  simp only [lookUp, hsplit, h]

/-- Without its manifest a package has nothing in common with one that has a manifest. -/
theorem lookUp_ne {m : Json.Document} {e : Failure}
    (h₁ : manifest c t₁ (split spec).1 = .ok m) (h₂ : manifest c t₂ (split spec).1 = .error e) :
    lookUp c t₁ spec ≠ lookUp c t₂ spec := by
  rcases hsplit : split spec with ⟨package, subpath⟩
  rw [hsplit] at h₁ h₂
  have hmissing : ∃ path, e = .manifestNotFound package path := by
    unfold manifest at h₂
    split at h₂
    · cases h₂
      exact ⟨_, rfl⟩
    dsimp only at h₂
    split at h₂
    · cases h₂
      exact ⟨_, rfl⟩
    · cases h₂
  obtain ⟨path, rfl⟩ := hmissing
  have hright : lookUp c t₂ spec = .error (.manifestNotFound package path) := by
    simp only [lookUp, hsplit, h₂]
    rfl
  rw [hright]
  intro hleft
  simp only [lookUp, hsplit, h₁] at hleft
  cases htarget : target c m package subpath with
  | ok path' =>
    simp only [Except.bind, bind, htarget] at hleft
    cases hleft
  | error e =>
    -- the other failure is that there is no entry
    simp only [Except.bind, bind, htarget, Except.error.injEq] at hleft
    subst hleft
    unfold target at htarget
    split at htarget
    · cases htarget
    split at htarget
    · cases htarget
    · cases htarget

/-- The path to the manifest of a package. -/
def manifestPath? (c : Config) (package : Text) : Option Path :=
  (Path.underRoot? c.depsPath package).map fun dir => dir.join manifestName

theorem manifest_congr {package : Text}
    (h : ∀ path, manifestPath? c package = some path → t₁.readBytes path = t₂.readBytes path) :
    manifest c t₁ package = manifest c t₂ package := by
  unfold manifest
  unfold manifestPath? at h
  cases hdir : Path.underRoot? c.depsPath package with
  | none => rfl
  | some dir =>
    rw [hdir] at h
    have hread : t₁.readText (dir.join manifestName) = t₂.readText (dir.join manifestName) := by
      rw [readText, h _ rfl, readText]
    simp only [hread]

/-- A change that alters what a specifier stands for is made where the path to the manifest of its
package enters. -/
theorem enters_of_lookUp_ne (h : SameApart place t₁ t₂)
    (hne : lookUp c t₁ spec ≠ lookUp c t₂ spec) :
    ∃ path, manifestPath? c (split spec).1 = some path ∧ path.Enters place := by
  by_contra hnone
  simp only [not_exists, not_and] at hnone
  exact hne (lookUp_congr (manifest_congr fun path hpath =>
    readBytes_congr h (hnone path hpath)))

/-- What the path to the manifest enters: what the path of the dependency directory enters, and what
lies on the way from there. -/
theorem enters_manifestPath_iff {package : Text} {names : List Text} :
    (∃ path, manifestPath? c package = some path ∧
        path.Enters (c.depsPath.location ++ names)) ↔
      ∃ segments, Path.segments? package = some segments ∧
        (names <+: segments ∨ names = segments ++ [manifestName] ∨
          c.depsPath.Enters (c.depsPath.location ++ names)) := by
  have hpath : ∀ segments, Path.segments? package = some segments →
      manifestPath? c package = some ((segments ++ [manifestName]).foldl Path.join c.depsPath) := by
    intro segments hsegments
    rw [manifestPath?, Path.underRoot?, hsegments, List.foldl_append]
    rfl
  have hcut : ∀ segments, Path.segments? package = some segments →
      (((segments ++ [manifestName]).foldl Path.join c.depsPath).Enters
          (c.depsPath.location ++ names) ↔
        names <+: segments ∨ names = segments ++ [manifestName] ∨
          c.depsPath.Enters (c.depsPath.location ++ names)) := by
    intro segments hsegments
    have hordinary : ∀ name ∈ segments ++ [manifestName], Path.Ordinary name := by
      intro name hname
      rcases List.mem_append.1 hname with hname | hname
      · exact Path.ordinary_of_segments? hsegments name hname
      · rw [List.mem_singleton.1 hname]
        exact ordinary_manifestName
    rw [Path.enters_foldl_join _ hordinary, List.prefix_append_right_inj, List.prefix_concat_iff]
    tauto
  constructor
  · rintro ⟨path, hsome, henters⟩
    cases hsegments : Path.segments? package with
    | none =>
      rw [manifestPath?, Path.underRoot?, hsegments] at hsome
      cases hsome
    | some segments =>
      obtain rfl := Option.some.inj ((hpath segments hsegments).symm.trans hsome)
      exact ⟨segments, rfl, (hcut segments hsegments).1 henters⟩
  · rintro ⟨segments, hsegments, henters⟩
    exact ⟨_, hpath segments hsegments, (hcut segments hsegments).2 henters⟩

end Dependence

/-! ## What is missed -/

/-- A change that the filter misses although it may alter what a specifier stands for: one two names
or more below the dependency directory, at none of the files that say what is installed, that is the
directory of the package or is on the way to it from the dependency directory. If the dependency
directory's own path leads through a place below it and up again, a change of that is missed as
well. -/
structure Missed (c : Config) (spec : Text) (names : List Text) : Prop where
  below : 2 ≤ names.length
  other : ∀ name, names.getLast? = some name → name ∉ resolutionFiles
  entered : ∃ segments, Path.segments? (split spec).1 = some segments ∧
    (names <+: segments ∨ c.depsPath.Enters (c.depsPath.location ++ names))

section Sound

variable {c : Config} {spec : Text} {path : Path} {names : List Text}

/-- A change at or below the dependency directory that alters what a specifier stands for is
noticed or is one of those that are missed. -/
theorem noticed_or_missed (hpath : path.components = c.depsPath.components ++ names.map .entry)
    {t₁ t₂ : FileTree} (hsame : SameApart path.location t₁ t₂)
    (hne : lookUp c t₁ spec ≠ lookUp c t₂ spec) :
    affectsResolution path c.depsPath = true ∨ Missed c spec names := by
  rw [affectsResolution_iff hpath]
  rw [Path.location_of_components hpath] at hsame
  obtain ⟨segments, hsegments, henters⟩ := enters_manifestPath_iff.1 (enters_of_lookUp_ne hsame hne)
  by_cases hfile : ∃ name, names.getLast? = some name ∧ name ∈ resolutionFiles
  · exact .inl (.inr hfile)
  have hother : ∀ name, names.getLast? = some name → name ∉ resolutionFiles :=
    fun name hname hmem => hfile ⟨name, hname, hmem⟩
  by_cases hlength : names.length ≤ 1
  · exact .inl (.inl hlength)
  refine .inr ⟨by omega, hother, segments, hsegments, ?_⟩
  rcases henters with hon | rfl | hthrough
  · exact .inl hon
  · exact absurd (by decide) (hother manifestName List.getLast?_concat)
  · exact .inr hthrough

/-- There is no manifest if nothing is where the path to it leads through. -/
theorem exists_manifest_error {package : Text} {tree : FileTree} {place : List Text}
    {path' : Path} (hpath : manifestPath? c package = some path') (henters : path'.Enters place)
    (hnothing : tree.formAt place = none) : ∃ e, manifest c tree package = .error e := by
  cases hmanifest : manifest c tree package with
  | error e => exact ⟨e, rfl⟩
  | ok m =>
    obtain ⟨dir, source, hdir, hread, -⟩ := manifest_eq_ok.1 hmanifest
    rw [manifestPath?, hdir] at hpath
    obtain rfl := Option.some.inj hpath
    obtain ⟨content, hcontent⟩ : ∃ content,
        tree.readBytes (dir.join manifestName) = .ok content := by
      unfold readText at hread
      split at hread
      · cases hread
      · exact ⟨_, ‹_›⟩
    have hsome := formAt_of_readBytes hcontent henters
    rw [hnothing] at hsome
    cases hsome

/-- Each change that is missed alters what the specifier stands for in some tree, if its package can
have a manifest at all. -/
theorem exists_unnoticed (hpath : path.components = c.depsPath.components ++ names.map .entry)
    (hmissed : Missed c spec names) {tree : FileTree} {m : Json.Document}
    (hm : manifest c tree (split spec).1 = .ok m) :
    ∃ t, SameApart path.location tree t ∧ lookUp c tree spec ≠ lookUp c t spec ∧
      affectsResolution path c.depsPath = false := by
  obtain ⟨hbelow, hother, segments, hsegments, hentered⟩ := hmissed
  have hplace := Path.location_of_components hpath
  have hne : path.location ≠ [] := by
    intro hnil
    have hlength := congrArg List.length (hplace.symm.trans hnil)
    rw [List.length_append, List.length_nil] at hlength
    omega
  obtain ⟨pruned, hsame, hnothing⟩ := exists_pruned hne tree
  obtain ⟨path', hpath', henters⟩ : ∃ path', manifestPath? c (split spec).1 = some path' ∧
      path'.Enters (c.depsPath.location ++ names) :=
    enters_manifestPath_iff.2 ⟨segments, hsegments, hentered.imp id .inr⟩
  rw [hplace] at hnothing
  obtain ⟨e, he⟩ := exists_manifest_error hpath' henters hnothing
  refine ⟨pruned, hsame, lookUp_ne hm he, ?_⟩
  rw [Bool.eq_false_iff, Ne, affectsResolution_iff hpath]
  rintro (hlength | ⟨name, hname, hmem⟩)
  · omega
  · exact hother name hname hmem

/-- The filter is sound apart from what it misses, and it misses no less. Let a change be made at
one path at or below the dependency directory, whatever is there before and afterwards. If it alters
what a specifier stands for, then it is let through or is one of those that are missed; and each of
these alters what the specifier stands for in some tree, without being let through, if the package
can have a manifest at all. -/
theorem affectsResolution_sound
    (hpath : path.components = c.depsPath.components ++ names.map .entry) :
    (∀ t₁ t₂, SameApart path.location t₁ t₂ → lookUp c t₁ spec ≠ lookUp c t₂ spec →
      affectsResolution path c.depsPath = true ∨ Missed c spec names) ∧
    (Missed c spec names → (∃ tree m, manifest c tree (split spec).1 = .ok m) →
      ∃ t₁ t₂, SameApart path.location t₁ t₂ ∧ lookUp c t₁ spec ≠ lookUp c t₂ spec ∧
        affectsResolution path c.depsPath = false) := by
  refine ⟨fun t₁ t₂ => noticed_or_missed hpath, ?_⟩
  rintro hmissed ⟨tree, m, hm⟩
  obtain ⟨t, h⟩ := exists_unnoticed hpath hmissed hm
  exact ⟨tree, t, h⟩

/-- No change is missed for a package that is one folder of the dependency directory, if the path of
the dependency directory never goes up. -/
theorem affectsResolution_of_lone
    (hpath : path.components = c.depsPath.components ++ names.map .entry)
    (hup : ['.', '.'] ∉ c.depsPath.parts)
    (hlone : ∀ segments, Path.segments? (split spec).1 = some segments → segments.length ≤ 1)
    {t₁ t₂ : FileTree} (hsame : SameApart path.location t₁ t₂)
    (hne : lookUp c t₁ spec ≠ lookUp c t₂ spec) : affectsResolution path c.depsPath = true := by
  rcases noticed_or_missed hpath hsame hne with
    hnoticed | ⟨hbelow, -, segments, hsegments, hentered⟩
  · exact hnoticed
  have hlength := hlone segments hsegments
  rcases hentered with hon | hthrough
  · have hle := hon.length_le
    omega
  · have hle := (Path.prefix_of_enters hup hthrough).length_le
    rw [List.length_append] at hle
    omega

end Sound

/-- A scoped package that is installed. -/
def sharedInstalled : FileTree :=
  .folder [("p".toList, .folder [("node_modules".toList, .folder [("@vue".toList, .folder [
    ("shared".toList, .folder [("package.json".toList,
      .file (Utf8.encode "\x7b\"module\": \"a.js\"\x7d".toList))])])])])]

/-- The scoped package is taken away, and the filter does not let it through. -/
theorem scoped_unnoticed :
    let c : Config := { root := "/p".toList }
    let path : Path := "/p/node_modules/@vue/shared".toList
    path.components = c.depsPath.components ++ ["@vue".toList, "shared".toList].map .entry ∧
      SameApart path.location sharedInstalled (sharedInstalled.remove path) ∧
      lookUp c sharedInstalled "@vue/shared".toList ≠
        lookUp c (sharedInstalled.remove path) "@vue/shared".toList ∧
      affectsResolution path c.depsPath = false := by
  intro c path
  refine ⟨by decide, (sameApart_remove sharedInstalled path).symm, ?_, by decide⟩
  decide +kernel

theorem affectsResolution_sound_sharedInstalled :
    let c : Config := { root := "/p".toList }
    let path : Path := "/p/node_modules/@vue".toList
    let shared : Path := "/p/node_modules/@vue/shared".toList
    lookUp c sharedInstalled "@vue/shared".toList ≠
        lookUp c (sharedInstalled.remove path) "@vue/shared".toList ∧
      affectsResolution path c.depsPath = true ∧
      Missed c "@vue/shared".toList ["@vue".toList, "shared".toList] ∧
      ∃ t₁ t₂, SameApart shared.location t₁ t₂ ∧
        lookUp c t₁ "@vue/shared".toList ≠ lookUp c t₂ "@vue/shared".toList ∧
        affectsResolution shared c.depsPath = false := by
  intro c path shared
  have hpath : path.components = c.depsPath.components ++ ["@vue".toList].map .entry := by decide
  have hshared : shared.components =
      c.depsPath.components ++ ["@vue".toList, "shared".toList].map .entry := by decide
  have hne : lookUp c sharedInstalled "@vue/shared".toList ≠
      lookUp c (sharedInstalled.remove path) "@vue/shared".toList := by decide +kernel
  have hmissed : Missed c "@vue/shared".toList ["@vue".toList, "shared".toList] := by
    refine ⟨Nat.le_refl 2, ?_, ["@vue".toList, "shared".toList], by decide, .inl List.prefix_rfl⟩
    rintro name ⟨⟩
    decide
  have hmanifest : (manifest c sharedInstalled "@vue/shared".toList).isOk := by decide +kernel
  obtain ⟨m, hm⟩ : ∃ m, manifest c sharedInstalled "@vue/shared".toList = .ok m := by
    cases hm : manifest c sharedInstalled "@vue/shared".toList with
    | error e =>
      rw [hm] at hmanifest
      cases hmanifest
    | ok m => exact ⟨m, rfl⟩
  refine ⟨hne, ?_, hmissed, (affectsResolution_sound hshared).2 hmissed ⟨_, m, hm⟩⟩
  rcases (affectsResolution_sound hpath).1 _ _ (sameApart_remove sharedInstalled path).symm hne with
    hnoticed | hmissed
  · exact hnoticed
  · exact absurd hmissed.below (by decide)

end ModuleServer.Specifier
