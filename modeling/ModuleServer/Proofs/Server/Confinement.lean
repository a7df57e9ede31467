import ModuleServer.Proofs.Files.Tree
import ModuleServer.Proofs.Import.Related
import ModuleServer.Proofs.Specifier.Address
import ModuleServer.Server.Session

/-!
# Confinement of file reads

A request brings text to the file system on three ways: its own path, the configured entry, and the
specifiers in the code that it leads to. All three go through `underRoot?`.

* `Server.reads` lists the files that a request reads. The list is complete: an answer depends on
  these files alone (`Server.handle_eq_of_reads`).
* Every one of them is the root or the dependency directory extended by ordinary segments
  (`Server.confined_of_mem_reads`).
* So nothing else among the files can be seen in any answer (`Session.run_requests_confined`).
-/

namespace ModuleServer

open FileTree

/-! ## Files that are read -/

namespace Config

/-- The files that the entry document is read from. -/
def entryFiles (c : Config) : List Path :=
  (c.filePath c.entryPath).toOption.toList

/-- The files that the source of a requested module is read from. -/
def moduleFiles (c : Config) (r : Request) : List Path :=
  match c.classify r with
  | .ok _ => (c.filePath r.path).toOption.toList
  | .error _ => []

/-- The files that a package's manifest is read from. -/
def manifestFiles (c : Config) (package : Text) : List Path :=
  match Path.underRoot? c.depsPath package with
  | some dir => [Path.join dir Specifier.manifestName]
  | none => []

/-- The files that are read to resolve a specifier. -/
def specifierFiles (c : Config) (memo : Specifier.Memo) (spec : Text) : List Path :=
  match memo.get? spec with
  | some _ => []
  | none => c.manifestFiles (Specifier.split spec).1

/-- The resolution of imports over the memo that notes the files it reads. -/
def loggedResolution (c : Config) (tree : FileTree) :
    Import.Resolution (Specifier.Memo × List Path) Failure :=
  fun spec s =>
    ((c.resolution tree spec s.1).1,
      ((c.resolution tree spec s.1).2, s.2 ++ c.specifierFiles s.1 spec))

end Config

/-- The files that a request reads, in order. -/
def Server.reads (s : Server) (tree : FileTree) (reading : Nat) (r : Request) : List Path :=
  if s.config.isEntry r then s.config.entryFiles
  else
    s.config.moduleFiles r ++
      match (s.prepare tree reading r).1 with
      | .ok (_, code) =>
        (Import.resolveAll (s.config.loggedResolution tree) code (s.memo, [])).2.2
      | .error _ => []

/-! ## The list is complete -/

section Complete

variable {t₁ t₂ : FileTree} {c : Config}

theorem readEntry_eq (h : ∀ p ∈ c.entryFiles, SameFile t₁ t₂ p) :
    c.readEntry t₁ = c.readEntry t₂ := by
  unfold Config.readEntry
  cases hfile : c.filePath c.entryPath with
  | error e => rfl
  | ok file =>
    have hsame : SameFile t₁ t₂ file := by
      apply h
      simp [Config.entryFiles, hfile, Except.toOption]
    unfold SameFile at hsame
    simp only [bind, Except.bind]
    rcases h₁ : t₁.readBytes file with e₁ | b₁ <;> rcases h₂ : t₂.readBytes file with e₂ | b₂ <;>
      rw [h₁, h₂] at hsame <;>
      simp only [Except.toOption, reduceCtorEq, Option.some.injEq] at hsame ⊢
    rw [hsame]

theorem readSource_eq {path : Text} (h : ∀ p ∈ (c.filePath path).toOption.toList, SameFile t₁ t₂ p) :
    c.readSource t₁ path = c.readSource t₂ path := by
  unfold Config.readSource
  cases hfile : c.filePath path with
  | error e => rfl
  | ok file =>
    have hsame : SameFile t₁ t₂ file := by
      apply h
      simp [hfile, Except.toOption]
    have htext := hsame.readText
    simp only [bind, Except.bind]
    rcases h₁ : t₁.readText file with e₁ | b₁ <;> rcases h₂ : t₂.readText file with e₂ | b₂ <;>
      rw [h₁, h₂] at htext <;>
      simp only [Except.toOption, reduceCtorEq, Option.some.injEq] at htext ⊢
    rw [htext]

theorem findModule_eq {r : Request} (h : ∀ p ∈ c.moduleFiles r, SameFile t₁ t₂ p) :
    c.findModule t₁ r = c.findModule t₂ r := by
  unfold Config.findModule
  cases hkind : c.classify r with
  | error e => rfl
  | ok kind =>
    have hsource : c.readSource t₁ r.path = c.readSource t₂ r.path := by
      apply readSource_eq
      intro p hp
      apply h
      simpa [Config.moduleFiles, hkind] using hp
    simp only [bind, Except.bind, hsource]

theorem manifest_eq {package : Text} (h : ∀ p ∈ c.manifestFiles package, SameFile t₁ t₂ p) :
    Specifier.manifest c t₁ package = Specifier.manifest c t₂ package := by
  unfold Specifier.manifest
  cases hdir : Path.underRoot? c.depsPath package with
  | none => rfl
  | some dir =>
    have hsame : SameFile t₁ t₂ (Path.join dir Specifier.manifestName) := by
      apply h
      simp [Config.manifestFiles, hdir]
    simp only [hsame.readText]

theorem resolution_eq {memo : Specifier.Memo} {spec : Text}
    (h : ∀ p ∈ c.specifierFiles memo spec, SameFile t₁ t₂ p) :
    c.resolution t₁ spec memo = c.resolution t₂ spec memo := by
  unfold Config.resolution Specifier.resolve
  cases hget : memo.get? spec with
  | some r => rfl
  | none =>
    have hmanifest : Specifier.manifest c t₁ (Specifier.split spec).1 =
        Specifier.manifest c t₂ (Specifier.split spec).1 := by
      apply manifest_eq
      intro p hp
      apply h
      simpa [Config.specifierFiles, hget] using hp
    have hlook : Specifier.lookUp c t₁ spec = Specifier.lookUp c t₂ spec := by
      simp only [Specifier.lookUp, hmanifest]
    simp only [hlook]

/-- Noting the files changes nothing, in the same tree or in one that agrees on all of them. -/
theorem logged_together (c : Config) (t₁ t₂ : FileTree) :
    Import.Together (c.loggedResolution t₁) (c.resolution t₂) (fun s memo => s.1 = memo)
      (fun s => ∃ p ∈ s.2, ¬ SameFile t₁ t₂ p) := by
  refine ⟨?_, ?_⟩
  · rintro spec ⟨memo, files⟩ _ rfl
    by_cases hsame : ∀ p ∈ c.specifierFiles memo spec, SameFile t₁ t₂ p
    · left
      have heq := resolution_eq hsame
      exact ⟨congrArg Prod.fst heq, congrArg Prod.snd heq⟩
    · right
      obtain ⟨p, hp, hdiffer⟩ : ∃ p ∈ c.specifierFiles memo spec, ¬ SameFile t₁ t₂ p := by
        by_contra hnone
        apply hsame
        intro p hp
        by_contra hdiffer
        exact hnone ⟨p, hp, hdiffer⟩
      exact ⟨p, List.mem_append_right _ hp, hdiffer⟩
  · rintro spec ⟨memo, files⟩ ⟨p, hp, hdiffer⟩
    exact ⟨p, List.mem_append_left _ hp, hdiffer⟩

theorem resolveAll_eq {code : Text} {memo : Specifier.Memo}
    (h : ∀ p ∈ (Import.resolveAll (c.loggedResolution t₁) code (memo, [])).2.2, SameFile t₁ t₂ p) :
    Import.resolveAll (c.resolution t₁) code memo =
      Import.resolveAll (c.resolution t₂) code memo := by
  rcases Import.resolveAll_together (logged_together c t₁ t₁) code (memo, []) memo rfl with
    ⟨hcode, hmemo⟩ | ⟨p, _, hdiffer⟩
  swap
  · exact absurd rfl hdiffer
  rcases Import.resolveAll_together (logged_together c t₁ t₂) code (memo, []) memo rfl with
    ⟨hcode', hmemo'⟩ | ⟨p, hp, hdiffer⟩
  swap
  · exact absurd (h p hp) hdiffer
  exact Prod.ext (hcode.symm.trans hcode') (hmemo.symm.trans hmemo')

/-- An answer depends on the files that the request reads, and on nothing else. -/
theorem Server.handle_eq_of_reads (s : Server) (reading : Nat) (r : Request)
    (h : ∀ p ∈ s.reads t₁ reading r, SameFile t₁ t₂ p) :
    s.handle t₁ reading r = s.handle t₂ reading r := by
  unfold Server.reads at h
  unfold Server.handle
  by_cases hentry : s.config.isEntry r
  · rw [if_pos hentry] at h
    rw [if_pos hentry, if_pos hentry, readEntry_eq h]
  · rw [if_neg hentry] at h
    rw [if_neg hentry, if_neg hentry]
    have hprep : s.prepare t₁ reading r = s.prepare t₂ reading r := by
      unfold Server.prepare
      rw [findModule_eq fun p hp => h p (List.mem_append_left _ hp)]
    rw [← hprep]
    rcases hp : s.prepare t₁ reading r with ⟨e | ⟨kind, code⟩, clock⟩
    · rfl
    · rw [hp] at h
      have hcode := resolveAll_eq fun p hp => h p (List.mem_append_right _ hp)
      simp only [Server.finish, hcode]

end Complete

/-! ## Every file in it is confined -/

/-- A path is the root or the dependency directory, extended by ordinary segments alone. -/
def Config.Confined (c : Config) (p : Path) : Prop :=
  Path.Below c.root p ∨ Path.Below c.depsPath p

section Confined

variable {c : Config}

theorem confined_of_filePath {path file : Path} (h : file ∈ (c.filePath path).toOption.toList) :
    c.Confined file := by
  left
  unfold Config.filePath at h
  cases hroot : Path.underRoot? c.root path with
  | none => simp [hroot, Except.toOption] at h
  | some f =>
    simp only [hroot, Except.toOption, Option.mem_toList, Option.some.injEq] at h
    subst h
    exact Path.below_of_underRoot? hroot

theorem confined_of_specifierFiles {memo : Specifier.Memo} {spec file : Text}
    (h : file ∈ c.specifierFiles memo spec) : c.Confined file := by
  right
  unfold Config.specifierFiles at h
  split at h
  · simp at h
  · unfold Config.manifestFiles at h
    split at h
    · rename_i dir hdir
      rw [List.mem_singleton.1 h]
      exact (Path.below_of_underRoot? hdir).join Specifier.ordinary_manifestName
    · simp at h

theorem Server.confined_of_mem_reads (s : Server) (tree : FileTree) (reading : Nat) (r : Request) :
    ∀ p ∈ s.reads tree reading r, s.config.Confined p := by
  intro p hp
  unfold Server.reads at hp
  split at hp
  · exact confined_of_filePath hp
  · rcases List.mem_append.1 hp with hmodule | hlog
    · unfold Config.moduleFiles at hmodule
      split at hmodule
      · exact confined_of_filePath hmodule
      · simp at hmodule
    · split at hlog
      · rename_i kind code _
        have hasked : ∀ spec (state : Specifier.Memo × List Path), Specifier.isBare spec →
            (∀ p ∈ state.2, s.config.Confined p) →
            ∀ p ∈ (s.config.loggedResolution tree spec state).2.2, s.config.Confined p := by
          intro spec state _ hstate p hp
          rcases List.mem_append.1 hp with hold | hnew
          · exact hstate p hold
          · exact confined_of_specifierFiles hnew
        have hall : ∀ p ∈ (Import.resolveAll (s.config.loggedResolution tree) code
            (s.memo, [])).2.2, s.config.Confined p :=
          Import.resolveAll_keeps hasked code (s.memo, []) (by simp)
        exact hall p hlog
      · simp at hlog

end Confined

/-! ## Two trees -/

namespace Session

theorem config_handle (s : Server) (tree : FileTree) (reading : Nat) (r : Request) :
    (s.handle tree reading r).2.config = s.config := by
  unfold Server.handle
  split
  · rfl
  · rcases s.prepare tree reading r with ⟨e | ⟨kind, code⟩, clock⟩ <;> rfl

/-- The steps of a client: requests as they come, path and query still encoded, each with a reading
of the clock. -/
def requestSteps (requests : List (Text × Option Text × Nat)) : List Step :=
  requests.map fun (path, query, reading) => .handle (.ofRaw path query) reading

theorem run_eq_of_agree {c : Config} {t₁ t₂ : FileTree} (hroot : AgreeBelow t₁ t₂ c.root)
    (hdeps : AgreeBelow t₁ t₂ c.depsPath) (requests : List (Text × Option Text × Nat)) :
    ∀ server : Server, server.config = c →
      ((⟨t₁, server⟩ : Session).run (requestSteps requests)).1 =
        ((⟨t₂, server⟩ : Session).run (requestSteps requests)).1 := by
  induction requests with
  | nil =>
    intro server _
    rfl
  | cons request rest ih =>
    obtain ⟨path, query, reading⟩ := request
    intro server hconfig
    have heq : server.handle t₁ reading (.ofRaw path query) =
        server.handle t₂ reading (.ofRaw path query) := by
      apply Server.handle_eq_of_reads
      intro p hp
      rcases server.confined_of_mem_reads t₁ reading _ p hp with hbelow | hbelow
      · rw [hconfig] at hbelow
        exact hroot p hbelow
      · rw [hconfig] at hbelow
        exact hdeps p hbelow
    have hrest := ih (server.handle t₁ reading (.ofRaw path query)).2
      ((config_handle ..).trans hconfig)
    simp only [requestSteps, List.map_cons, run, step] at hrest ⊢
    rw [← heq, hrest]

/-- File reads are confined. Trees that agree below the root and below the dependency directory
cannot be told apart by any requests; a request reads files below these two alone, and its answer
depends on those that it reads; and a path is refused exactly when some `..` meets an empty stack,
which is where as many climbs as names stand before it. -/
theorem run_requests_confined (c : Config) (t₁ t₂ : FileTree) (hroot : AgreeBelow t₁ t₂ c.root)
    (hdeps : AgreeBelow t₁ t₂ c.depsPath) (requests : List (Text × Option Text × Nat)) :
    ((start c t₁).run (requestSteps requests)).1 = ((start c t₂).run (requestSteps requests)).1 ∧
      (∀ (server : Server) (tree : FileTree) (reading : Nat) (r : Request), server.config = c →
        (∀ p ∈ server.reads tree reading r, c.Confined p) ∧
          ∀ other, (∀ p ∈ server.reads tree reading r, SameFile tree other p) →
            server.handle tree reading r = server.handle other reading r) ∧
      ∀ base path, Path.underRoot? base path = none ↔ ∃ before after,
        Text.pieces Path.isSeparator path = before ++ ['.', '.'] :: after ∧
          before.countP Path.isName = before.count ['.', '.'] := by
  refine ⟨run_eq_of_agree hroot hdeps requests (.start c) rfl, ?_, Path.underRoot?_eq_none_iff⟩
  rintro server tree reading r rfl
  exact ⟨server.confined_of_mem_reads tree reading r,
    fun other => server.handle_eq_of_reads reading r⟩

/-- A project with a script that imports a package, beside a file that is not the project's. -/
def besideSecret (secret : Text) : FileTree :=
  .folder [("p".toList, .folder [
      ("main.js".toList, .file (Utf8.encode "import '@a/..'\nimport 'vue'\n".toList)),
      ("node_modules".toList, .folder [])]),
    ("secret.js".toList, .file (Utf8.encode secret))]

/-- Requests that try to climb out, and one for the script. -/
def climbs : List (Text × Option Text × Nat) :=
  [("/%2e%2e/secret.js".toList, none, 1), ("/x\\..\\..//secret.js".toList, none, 2),
   ("/main.js".toList, some "type=template".toList, 3)]

theorem run_requests_confined_besideSecret :
    let c : Config := { root := "/p".toList }
    let one := besideSecret "1".toList
    let two := besideSecret "2".toList
    AgreeBelow one two c.root ∧ AgreeBelow one two c.depsPath ∧
      ((start c one).run (requestSteps climbs)).1 = ((start c two).run (requestSteps climbs)).1 := by
  intro c one two
  have hroot : AgreeBelow one two c.root := agreeBelow_of_entry rfl
  have hdeps : AgreeBelow one two c.depsPath := agreeBelow_of_entry rfl
  exact ⟨hroot, hdeps, (run_requests_confined c one two hroot hdeps climbs).1⟩

end Session

end ModuleServer
