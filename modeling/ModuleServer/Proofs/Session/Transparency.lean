import ModuleServer.Proofs.Specifier.Memo
import ModuleServer.Server.Session

/-!
# Sessions with and without a memo

Two servers run side by side over the same files, one with a memo and one without. As long as no
file changes between a reload and the next question (`Orderly`), nobody can tell them apart, and the
memo holds exactly what the questions since the last reload have found.

* `Session.foundSince` lists what has been found since the last reload, by the server without a
  memo; requests that fail later on count as well.
* `Session.step_alike` is the step of the simulation, `Session.run_alike` the run.
* `Session.run_memo_transparent` puts the two together.
-/

namespace ModuleServer

open Specifier

/-! ## Orderly runs -/

namespace Step

/-- Whether a step asks for something to be resolved. -/
def asks : Step → Bool
  | .resolve _ => true
  | .handle _ _ => true
  | _ => false

/-- Whether files have changed since the last reload, when `before` says so of the steps before. -/
def staleBehind (before : Bool) : Step → Bool
  | .write _ _ => true
  | .makeFolder _ => true
  | .remove _ => true
  | .reload => false
  | _ => before

end Step

/-- Every change of files is followed by a reload before anything is asked again. -/
def Orderly (stale : Bool) : List Step → Bool
  | [] => true
  | x :: xs => !(x.asks && stale) && Orderly (x.staleBehind stale) xs

/-- Whether files have changed since the last reload, behind some steps. -/
def staleAfter (stale : Bool) : List Step → Bool
  | [] => stale
  | x :: xs => staleAfter (x.staleBehind stale) xs

/-! ## What has been found -/

/-- What has been found behind a request, `found` before it: everything that its code asks for,
up to the first failure. -/
def Server.noteHandle (s : Server) (tree : FileTree) (reading : Nat) (r : Request)
    (found : Found) : Found :=
  if s.config.isEntry r then found
  else
    match (s.prepare tree reading r).1 with
    | .error _ => found
    | .ok (_, code) => (Import.resolveAll (noting s.config tree) code found).2

namespace Session

/-- What has been found since the last reload, behind a step. -/
def noteStep (s : Session) (found : Found) : Step → Found
  | .reload => []
  | .resolve spec => note s.server.config s.tree spec found
  | .handle r reading => s.server.noteHandle s.tree reading r found
  | _ => found

/-- What has been found since the last reload, behind some steps. -/
def foundSince (s : Session) (found : Found) : List Step → Found
  | [] => found
  | x :: xs => foundSince (s.step x).2 (s.noteStep found x) xs

/-! ## The simulation -/

/-- A session with a memo and one without stand at the same point: they differ in the memo alone,
which holds what has been found; and that is up to date unless files have changed. -/
structure Alike (c : Config) (stale : Bool) (found : Found) (s u : Session) : Prop where
  tree : s.tree = u.tree
  clock : s.server.clock = u.server.clock
  cached : s.server.config = { c with resolveCache := true }
  plain : u.server.config = { c with resolveCache := false }
  holds : s.server.memo.Holds found
  without : u.server.memo = none
  current : stale = false → Current c s.tree found

theorem start_alike (c : Config) (tree : FileTree) :
    Alike c false [] (start { c with resolveCache := true } tree)
      (start { c with resolveCache := false } tree) where
  tree := rfl
  clock := rfl
  cached := rfl
  plain := rfl
  holds := ⟨⟨[], rfl, List.nodup_nil⟩, by simp [start, Server.start, Memo.start, Memo.get?,
    Table.get?]⟩
  without := rfl
  current := by
    intro _ spec r hmem
    simp at hmem

section Step

variable {c : Config} {found : Found} {s u : Session}

theorem resolve_alike (h : Alike c false found s u) (spec : Text) :
    (s.step (.resolve spec)).1 = (u.step (.resolve spec)).1 ∧
      Alike c false (u.noteStep found (.resolve spec)) (s.step (.resolve spec)).2
        (u.step (.resolve spec)).2 := by
  obtain ⟨tree, config, memo, clock⟩ := s
  obtain ⟨tree', config', memo', clock'⟩ := u
  obtain ⟨rfl, rfl, rfl, rfl, hholds, rfl, hcur⟩ := h
  have hres := resolve_holds hholds (hcur rfl) spec
  refine ⟨?_, rfl, rfl, rfl, rfl, hres.2, ?_, fun _ => current_note (hcur rfl) spec⟩
  · simp only [step, Server.resolve, resolve_none]
    exact congrArg Answer.resolved hres.1
  · simp only [step, Server.resolve, resolve_none]

/-- A code is rewritten alike, and the memo holds what it has asked for. -/
theorem finish_alike {tree : FileTree} {memo : Memo} (hholds : memo.Holds found)
    (hcur : Current c tree found) (clock : Clock) (kind : ModuleKind) (code : Text) :
    let cached : Server := ⟨{ c with resolveCache := true }, memo, clock⟩
    let plain : Server := ⟨{ c with resolveCache := false }, none, clock⟩
    (cached.finish tree kind code).1 = (plain.finish tree kind code).1 ∧
      Alike c false (Import.resolveAll (noting plain.config tree) code found).2
        ⟨tree, (cached.finish tree kind code).2⟩ ⟨tree, (plain.finish tree kind code).2⟩ := by
  intro cached plain
  have hcached := Import.resolveAll_together (noting_together cached.config tree) code memo found
    ⟨hholds, hcur⟩
  have hplain := Import.resolveAll_together (plain_together plain.config tree) code none found rfl
  rcases hcached with ⟨heq, hholds', hcur'⟩ | hbad
  swap
  · exact hbad.elim
  rcases hplain with ⟨heq', hnone⟩ | hbad
  swap
  · exact hbad.elim
  refine ⟨?_, rfl, rfl, rfl, rfl, hholds', hnone, fun _ => hcur'⟩
  have hcode := heq.trans heq'.symm
  simp only [Server.finish]
  rw [hcode]

theorem handle_alike (h : Alike c false found s u) (r : Request) (reading : Nat) :
    (s.step (.handle r reading)).1 = (u.step (.handle r reading)).1 ∧
      Alike c false (u.noteStep found (.handle r reading)) (s.step (.handle r reading)).2
        (u.step (.handle r reading)).2 := by
  obtain ⟨tree, config, memo, clock⟩ := s
  obtain ⟨tree', config', memo', clock'⟩ := u
  obtain ⟨rfl, rfl, rfl, rfl, hholds, rfl, hcur⟩ := h
  let cached : Server := ⟨{ c with resolveCache := true }, memo, clock⟩
  let plain : Server := ⟨{ c with resolveCache := false }, none, clock⟩
  have hprep : cached.prepare tree reading r = plain.prepare tree reading r := rfl
  have hentry : cached.config.isEntry r = plain.config.isEntry r := rfl
  simp only [step, noteStep, Server.noteHandle, Server.handle]
  by_cases he : plain.config.isEntry r
  · rw [if_pos he, if_pos (hentry.trans he), if_pos he]
    exact ⟨rfl, rfl, rfl, rfl, rfl, hholds, rfl, hcur⟩
  · rw [if_neg he, if_neg (by rwa [hentry]), if_neg he]
    rw [show cached.prepare tree reading r = _ from hprep]
    rcases hp : plain.prepare tree reading r with ⟨e | ⟨kind, code⟩, clock'⟩
    · -- the request fails before anything is asked
      exact ⟨rfl, rfl, rfl, rfl, rfl, hholds, rfl, hcur⟩
    · have hfin := finish_alike hholds (hcur rfl) clock' kind code
      exact ⟨congrArg Answer.served hfin.1, hfin.2⟩

/-- One step of the simulation. -/
theorem step_alike {stale : Bool} (h : Alike c stale found s u) (x : Step)
    (hx : x.asks → stale = false) :
    (s.step x).1 = (u.step x).1 ∧
      Alike c (x.staleBehind stale) (u.noteStep found x) (s.step x).2 (u.step x).2 := by
  cases x with
  | resolve spec =>
    have hfresh := hx rfl
    subst hfresh
    exact resolve_alike h spec
  | handle r reading =>
    have hfresh := hx rfl
    subst hfresh
    exact handle_alike h r reading
  | reload =>
    refine ⟨rfl, h.tree, h.clock, h.cached, h.plain, Memo.holds_clear h.holds, ?_, ?_⟩
    · simp only [step, Server.reload, h.without]
      rfl
    · intro _ spec r hmem
      simp [noteStep] at hmem
  | write path content =>
    exact ⟨rfl, by simp only [step, h.tree], h.clock, h.cached, h.plain, h.holds, h.without,
      fun hstale => absurd hstale (by simp [Step.staleBehind])⟩
  | makeFolder path =>
    exact ⟨rfl, by simp only [step, h.tree], h.clock, h.cached, h.plain, h.holds, h.without,
      fun hstale => absurd hstale (by simp [Step.staleBehind])⟩
  | remove path =>
    exact ⟨rfl, by simp only [step, h.tree], h.clock, h.cached, h.plain, h.holds, h.without,
      fun hstale => absurd hstale (by simp [Step.staleBehind])⟩

end Step

/-- A whole run of the simulation, by induction on the steps. -/
theorem run_alike {c : Config} (steps : List Step) :
    ∀ {stale : Bool} {found : Found} {s u : Session}, Alike c stale found s u →
      Orderly stale steps →
      (s.run steps).1 = (u.run steps).1 ∧
        Alike c (staleAfter stale steps) (u.foundSince found steps) (s.run steps).2
          (u.run steps).2 := by
  induction steps with
  | nil =>
    intro stale found s u h _
    exact ⟨rfl, h⟩
  | cons x xs ih =>
    intro stale found s u h horderly
    simp only [Orderly, Bool.and_eq_true, Bool.not_eq_true', Bool.and_eq_false_iff] at horderly
    have hx : x.asks → stale = false := by
      intro hasks
      rcases horderly.1 with hno | hfresh
      · rw [hno] at hasks
        exact absurd hasks (by simp)
      · exact hfresh
    obtain ⟨hanswer, halike⟩ := step_alike h x hx
    obtain ⟨hanswers, halike'⟩ := ih halike horderly.2
    refine ⟨?_, halike'⟩
    simp only [run, hanswer, hanswers]

/-- The memo is transparent. Behind every orderly run the server with a memo has given the answers
of the one without; its memo holds exactly what has been found since the last reload, which is
what is found in the files now unless they have changed since; a failure leaves the memo as it is;
and as many specifiers are remembered as different ones have been found. -/
theorem run_memo_transparent (c : Config) (tree : FileTree) (steps : List Step)
    (h : Orderly false steps) :
    let cached := (start { c with resolveCache := true } tree).run steps
    let plain := (start { c with resolveCache := false } tree).run steps
    let found := (start { c with resolveCache := false } tree).foundSince [] steps
    cached.1 = plain.1 ∧
      (∀ spec r, cached.2.server.memo.get? spec = some r ↔ (spec, r) ∈ found) ∧
      (staleAfter false steps = false → ∀ spec r, cached.2.server.memo.get? spec = some r →
        lookUp c cached.2.tree spec = .ok r) ∧
      (∀ spec e, (cached.2.server.resolve cached.2.tree spec).1 = .error e →
        (cached.2.server.resolve cached.2.tree spec).2 = cached.2.server) ∧
      cached.2.server.memo.count = (found.map Prod.fst).dedup.length := by
  intro cached plain found
  obtain ⟨hanswers, halike⟩ := run_alike steps (start_alike c tree) h
  refine ⟨hanswers, halike.holds.get?_iff, ?_, ?_, halike.holds.count_eq⟩
  · intro hfresh spec r hget
    exact halike.current hfresh spec r ((halike.holds.get?_iff spec r).1 hget)
  · intro spec e herror
    have hmemo : (Specifier.resolve cached.2.server.config cached.2.tree spec
        cached.2.server.memo).2 = cached.2.server.memo := resolve_of_error herror
    simp only [Server.resolve]
    rw [hmemo]

/-- A script whose second import cannot be resolved, and the manifest that the first one needs. -/
def halfResolved : FileTree :=
  .folder [("p".toList, .folder [
    ("main.js".toList, .file (Utf8.encode "import 'vue'\nimport 'gone'\n".toList)),
    ("node_modules".toList, .folder [("vue".toList, .folder [
      ("package.json".toList, .file (Utf8.encode "\x7b\"module\": \"a.js\"\x7d".toList))])])])]

/-- A request that fails behind its first import, then a new manifest, a reload and a question. -/
def changeOfManifest : List Step :=
  [.handle (.ofRaw "/main.js".toList none) 7,
   .write "/p/node_modules/vue/package.json".toList
    (Utf8.encode "\x7b\"module\": \"b.js\"\x7d".toList),
   .reload, .resolve "vue".toList]

theorem run_memo_transparent_changeOfManifest :
    let c : Config := { root := "/p".toList }
    let cached := (start { c with resolveCache := true } halfResolved).run changeOfManifest
    Orderly false changeOfManifest ∧ staleAfter false changeOfManifest = false ∧
      cached.1 = ((start { c with resolveCache := false } halfResolved).run changeOfManifest).1 ∧
      (∀ spec r, cached.2.server.memo.get? spec = some r →
        lookUp c cached.2.tree spec = .ok r) := by
  intro c cached
  have horderly : Orderly false changeOfManifest := by decide
  have hfresh : staleAfter false changeOfManifest = false := by decide
  have h := run_memo_transparent c halfResolved changeOfManifest horderly
  exact ⟨horderly, hfresh, h.1, h.2.2.1 hfresh⟩

end Session

end ModuleServer
