import Mathlib.Data.List.Induction
import ModuleServer.Proofs.Server.Confinement
import ModuleServer.Proofs.Specifier.Address
import ModuleServer.Proofs.Specifier.Memo

/-!
# Where answers come from

Whatever a server answers about a specifier has once been looked up in the files, if not now then
before an earlier step: a step adds nothing else to the memo (`get?_step`), and so does a run
(`get?_run`). With it every answer has the manifest that it was read from, and its address leads to
the file of the package (`resolve_served`).
-/

namespace ModuleServer

open Text Specifier

namespace Specifier

variable {c : Config} {tree : FileTree} {spec : Text} {memo : Memo} {r : Resolved}

/-- What a question answers was remembered or is looked up. -/
theorem resolve_eq_ok (h : (resolve c tree spec memo).1 = .ok r) :
    memo.get? spec = some r ∨ lookUp c tree spec = .ok r := by
  unfold resolve at h
  cases hget : memo.get? spec with
  | some r' =>
    simp only [hget] at h
    exact .inl (congrArg some (Except.ok.inj h))
  | none =>
    simp only [hget] at h
    cases hlook : lookUp c tree spec with
    | error e =>
      rw [hlook] at h
      cases h
    | ok r' =>
      rw [hlook] at h
      exact .inr h

/-- What is remembered behind a question was remembered before or is looked up. -/
theorem get?_resolve {other : Text} (h : (resolve c tree spec memo).2.get? other = some r) :
    memo.get? other = some r ∨ lookUp c tree other = .ok r := by
  unfold resolve at h
  cases hget : memo.get? spec with
  | some r' =>
    simp only [hget] at h
    exact .inl h
  | none =>
    simp only [hget] at h
    cases hlook : lookUp c tree spec with
    | error e =>
      rw [hlook] at h
      exact .inl h
    | ok r' =>
      rw [hlook] at h
      cases memo with
      | none => cases h
      | some t =>
        rw [Memo.get?_set (some t) spec other r' rfl] at h
        split at h
        · rename_i hother
          obtain rfl := Option.some.inj h
          exact .inr (hother ▸ hlook)
        · exact .inl h

/-! ## Where packages are served -/

/-- The address of what is found starts with a slash. -/
theorem head?_url (h : lookUp c tree spec = .ok r) : r.url.head? = some '/' := by
  obtain ⟨-, m, path, -, -, hurl⟩ := lookUp_eq_ok.1 h
  rw [hurl]
  rfl

/-- What is remembered has addresses that start with a slash. -/
def Memo.IsRooted (memo : Memo) : Prop :=
  ∀ spec r, memo.get? spec = some r → r.url.head? = some '/'

theorem isRooted_resolve (h : memo.IsRooted) (c : Config) (tree : FileTree) (spec : Text) :
    (resolve c tree spec memo).2.IsRooted := by
  intro other r hget
  rcases get?_resolve hget with hold | hnew
  · exact h other r hold
  · exact head?_url hnew

theorem head?_url_of_resolve (h : memo.IsRooted) (hr : (resolve c tree spec memo).1 = .ok r) :
    r.url.head? = some '/' := by
  rcases resolve_eq_ok hr with hold | hnew
  · exact h spec r hold
  · exact head?_url hnew

end Specifier

namespace Server

variable {s : Server} {tree : FileTree} {reading : Nat} {request : Request} {spec : Text}
  {r : Resolved}

/-- What is remembered behind a request was remembered before or is looked up. -/
theorem get?_handle (h : (s.handle tree reading request).2.memo.get? spec = some r) :
    s.memo.get? spec = some r ∨ lookUp s.config tree spec = .ok r := by
  unfold handle at h
  split at h
  · exact .inl h
  split at h
  · exact .inl h
  · -- a rewriting keeps what each of its questions keeps
    have hasked : ∀ asked (memo : Memo), isBare asked →
        (memo.get? spec = some r →
          s.memo.get? spec = some r ∨ lookUp s.config tree spec = .ok r) →
        (s.config.resolution tree asked memo).2.get? spec = some r →
          s.memo.get? spec = some r ∨ lookUp s.config tree spec = .ok r := by
      intro asked memo _ hmemo hget
      rcases get?_resolve hget with hold | hnew
      · exact hmemo hold
      · exact .inr hnew
    exact Import.resolveAll_keeps hasked _ s.memo .inl h

end Server

namespace Session

/-! ## One step -/

section Step

variable {s : Session} {spec : Text} {r : Resolved}

theorem config_step (s : Session) (x : Step) : (s.step x).2.server.config = s.server.config := by
  cases x with
  | handle request reading => exact config_handle ..
  | _ => rfl

/-- What is remembered behind a step was remembered before or is looked up in the files. -/
theorem get?_step (x : Step) (h : (s.step x).2.server.memo.get? spec = some r) :
    s.server.memo.get? spec = some r ∨ lookUp s.server.config s.tree spec = .ok r := by
  cases x with
  | write path content => exact .inl h
  | makeFolder path => exact .inl h
  | remove path => exact .inl h
  | reload =>
    have hnone : s.server.memo.clear.get? spec = none := by
      cases s.server.memo <;> rfl
    have hget : s.server.memo.clear.get? spec = some r := h
    rw [hnone] at hget
    cases hget
  | resolve asked => exact get?_resolve h
  | handle request reading => exact Server.get?_handle h

end Step

/-! ## Runs -/

theorem run_snoc (s : Session) (steps : List Step) (x : Step) :
    (s.run (steps ++ [x])).2 = ((s.run steps).2.step x).2 := by
  induction steps generalizing s with
  | nil => rfl
  | cons y steps ih => exact ih (s.step y).2

theorem config_run (s : Session) (steps : List Step) :
    (s.run steps).2.server.config = s.server.config := by
  induction steps generalizing s with
  | nil => rfl
  | cons x steps ih => exact (ih (s.step x).2).trans (config_step s x)

/-- What is remembered behind a run was remembered before or has been looked up in the files as they
were before some step. -/
theorem get?_run {s : Session} (steps : List Step) {spec : Text} {r : Resolved}
    (h : (s.run steps).2.server.memo.get? spec = some r) :
    s.server.memo.get? spec = some r ∨
      ∃ front, front <+: steps ∧ lookUp s.server.config (s.run front).2.tree spec = .ok r := by
  induction steps using List.reverseRecOn with
  | nil => exact .inl h
  | append_singleton steps x ih =>
    rw [run_snoc] at h
    rcases get?_step x h with hold | hnew
    · rcases ih hold with hstart | ⟨front, hfront, hlook⟩
      · exact .inl hstart
      · exact .inr ⟨front, hfront.trans (List.prefix_append steps [x]), hlook⟩
    · rw [config_run] at hnew
      exact .inr ⟨steps, List.prefix_append steps [x], hnew⟩

/-- Whatever a server remembers has been looked up behind some of the steps. -/
theorem exists_lookUp_of_get? {c : Config} {tree : FileTree} {steps : List Step} {spec : Text}
    {r : Resolved} (h : ((start c tree).run steps).2.server.memo.get? spec = some r) :
    ∃ front, front <+: steps ∧ lookUp c ((start c tree).run front).2.tree spec = .ok r := by
  rcases get?_run steps h with hstart | hfound
  · have hempty : (Memo.start c).get? spec = none := by
      unfold Memo.start
      split <;> rfl
    have hget : (Memo.start c).get? spec = some r := hstart
    rw [hempty] at hget
    cases hget
  · exact hfound

/-- Whatever a server answers about a specifier has been looked up behind some of the steps. -/
theorem exists_lookUp {c : Config} {tree : FileTree} {steps : List Step} {spec : Text}
    {r : Resolved}
    (h : (((start c tree).run steps).2.server.resolve ((start c tree).run steps).2.tree spec).1 =
      .ok r) :
    ∃ front, front <+: steps ∧ lookUp c ((start c tree).run front).2.tree spec = .ok r := by
  have hconfig : ((start c tree).run steps).2.server.config = c := config_run _ steps
  rcases resolve_eq_ok h with hget | hlook
  · exact exists_lookUp_of_get? hget
  · rw [hconfig] at hlook
    exact ⟨steps, List.prefix_rfl, hlook⟩

/-- Whatever has been remembered behind a run is served under an address that starts with a slash. -/
theorem isRooted_run (c : Config) (tree : FileTree) (steps : List Step) :
    ((start c tree).run steps).2.server.memo.IsRooted := by
  intro spec r hget
  obtain ⟨front, -, hlook⟩ := exists_lookUp_of_get? hget
  exact head?_url hlook

/-! ## Served addresses -/

/-- Packages are served from the dependency directory. The address that a specifier is resolved to,
if it has no percent sign, is asked for as it is written; it has been made from the manifest in the
package's directory, and leads from the root to where the package's name and the path in the
package, the specifier's own or the manifest's entry, lead from the dependency directory. With a
path in the package it is the mount path with the specifier as it stands. -/
theorem resolve_served {c : Config} (hc : c.DepsInside) (tree : FileTree) (steps : List Step)
    (spec : Text) (r : Resolved) (hpercent : '%' ∉ r.url)
    (h : (((start c tree).run steps).2.server.resolve ((start c tree).run steps).2.tree spec).1 =
      .ok r) :
    (Request.ofRaw r.url none).path = r.url ∧ split spec = (r.package, r.subpath) ∧
      ∃ front, front <+: steps ∧ ∃ dir source m path,
        Path.underRoot? c.depsPath r.package = some dir ∧
        ((start c tree).run front).2.tree.readText (dir.join manifestName) = .ok source ∧
        Json.Document.parseStrict? source = some m ∧
        (r.subpath = some path ∨ r.subpath = none ∧ entry? c.entryField m = some path) ∧
        r.url = packageUrl c r.package path ∧
        (∀ f, Path.underRoot? c.depsPath (r.package ++ '/' :: path) = some f →
          ∃ g, Path.underRoot? c.root (Request.ofRaw r.url none).path = some g ∧
            Path.components g = Path.components f) ∧
        (r.subpath.isSome → r.url = c.mountPath ++ '/' :: spec) := by
  obtain ⟨front, hfront, hlook⟩ := exists_lookUp h
  obtain ⟨hsplit, m, path, hm, htarget, hurl⟩ := lookUp_eq_ok.1 hlook
  obtain ⟨dir, source, hdir, hread, hparse⟩ := manifest_eq_ok.1 hm
  have hpath : (Request.ofRaw r.url none).path = r.url := by
    refine path_ofRaw ?_ hpercent none
    rw [hurl]
    rfl
  refine ⟨hpath, hsplit, front, hfront, dir, source, m, path, hdir, hread, hparse,
    target_eq_ok.1 htarget, hurl, ?_, ?_⟩
  · intro f hf
    rw [hpath, hurl]
    exact hc.components_packageUrl hf
  · intro hsome
    rcases eq_of_split hsplit with ⟨path', hpath', hspec⟩ | ⟨hnone, -⟩
    · rw [hpath'] at htarget
      obtain rfl := Except.ok.inj htarget
      rw [hurl, hspec, packageUrl, List.append_assoc, List.cons_append]
    · rw [hnone] at hsome
      cases hsome

/-- A scoped package, whose entry leads through a folder and out again. -/
def scopedPackage : FileTree :=
  .folder [("p".toList, .folder [("node_modules".toList, .folder [("@vue".toList, .folder [
    ("shared".toList, .folder [("package.json".toList,
      .file (Utf8.encode "\x7b\"module\": \"./lib/../dist/a.js\"\x7d".toList))])])])])]

theorem resolve_served_scopedPackage :
    let c : Config := { root := "/p".toList, depsDir := "./node_modules/".toList }
    let steps : List Step :=
      [.resolve "@vue/shared".toList, .remove "/p/node_modules/@vue".toList]
    let behind := ((start c scopedPackage).run steps).2
    let r : Resolved := ⟨"@vue/shared".toList, none,
      "/./node_modules/@vue/shared/lib/../dist/a.js".toList⟩
    c.DepsInside ∧ '%' ∉ r.url ∧
      (behind.server.resolve behind.tree "@vue/shared".toList).1 = .ok r ∧
      (Request.ofRaw r.url none).path = r.url ∧
      (∃ front, front <+: steps ∧ ∃ m,
        manifest c ((start c scopedPackage).run front).2.tree r.package = .ok m ∧
        entry? c.entryField m = some "lib/../dist/a.js".toList) ∧
      ∃ g, Path.underRoot? c.root (Request.ofRaw r.url none).path = some g ∧
        Path.components g =
          Path.components "/p/./node_modules/@vue/shared/dist/a.js".toList := by
  intro c steps behind r
  have hc : c.DepsInside := ⟨by decide, by decide, by decide, by decide⟩
  have hpercent : '%' ∉ r.url := by decide
  have hresolve : (behind.server.resolve behind.tree "@vue/shared".toList).1 = .ok r := by
    decide +kernel
  obtain ⟨hpath, -, front, hfront, dir, source, m, path, hdir, hread, hparse, htarget, hurl,
    hplace, -⟩ := resolve_served hc scopedPackage steps _ r hpercent hresolve
  have hentry : path = "lib/../dist/a.js".toList := by
    have hcut : r.url = packageUrl c r.package "lib/../dist/a.js".toList := by decide
    exact (List.cons.inj (List.append_cancel_left (hurl.symm.trans hcut))).2
  subst hentry
  refine ⟨hc, hpercent, hresolve, hpath, ⟨front, hfront, m, ?_, ?_⟩, hplace _ (by decide)⟩
  · exact manifest_eq_ok.2 ⟨dir, source, hdir, hread, hparse⟩
  · rcases htarget with hsome | ⟨-, hentry⟩
    · cases hsome
    · exact hentry

end Session

end ModuleServer
