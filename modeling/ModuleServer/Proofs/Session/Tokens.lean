import ModuleServer.Proofs.Server.Linked
import ModuleServer.Proofs.Session.Interleaving
import ModuleServer.Server.Session

/-!
# The tokens of a session

A main module carries a token in its first line, which tells it apart from every one before. The
token is the last one of the server from then on; requests that fail may take one too, and nothing
else that happens to a server touches it.

* `Server.exists_of_main` says what stands behind a main module that is served.
* `Session.mainModules` are the main modules that a session serves, with their tokens.
* `tokens_increase`: the tokens increase, for calls made at once and along every session.
-/

namespace ModuleServer

open Text

/-! ## One request -/

namespace Server

variable {s s' : Server} {tree : FileTree} {reading : Nat} {r : Request} {served : Served}

theorem clock_moduleCode (kind : ModuleKind) (path source : Text) (clock : Clock) (reading : Nat) :
    (moduleCode kind path source clock reading).2 = clock ∨
      (moduleCode kind path source clock reading).2 = clock.advance reading := by
  unfold moduleCode
  split
  · split
    · exact .inr rfl
    · exact .inl rfl
  · exact .inl rfl
  · exact .inl rfl

/-- A request takes a token or leaves the clock alone, whether it is served or not. -/
theorem clock_handle (s : Server) (tree : FileTree) (reading : Nat) (r : Request) :
    (s.handle tree reading r).2.clock = s.clock ∨
      (s.handle tree reading r).2.clock = s.clock.advance reading := by
  rw [handle]
  split
  · exact .inl rfl
  · rw [prepare]
    cases s.config.findModule tree r with
    | error e => exact .inl rfl
    | ok found =>
      obtain ⟨kind, source⟩ := found
      have hclock := clock_moduleCode kind r.path source s.clock reading
      rcases hcode : moduleCode kind r.path source s.clock reading with ⟨_ | code, clock⟩
      · rw [hcode] at hclock
        simpa only [hcode, Except.map] using hclock
      · rw [hcode] at hclock
        simpa only [hcode, Except.map, finish] using hclock

/-- Behind a main module that is served there is a component, and the code whose first line imports
its render function under the token just taken. -/
theorem exists_of_main (h : s.handle tree reading r = (.ok served, s'))
    (hkind : served.kind = .component .main) :
    s.config.isEntry r = false ∧ s'.clock = s.clock.advance reading ∧ ∃ source behind text,
      s.config.findModule tree r = .ok (.component .main, source) ∧
        Import.resolveAll (s.config.resolution tree)
          (Component.importStart ++ Component.templateUrl r.path s'.clock.last ++ ['"', '\n'] ++
            behind) s.memo = (.ok text, s'.memo) ∧
          served.body = Utf8.encode text := by
  obtain ⟨hentry, source, code, text, hfind, hcode, htext, hbody⟩ := exists_of_handle h hkind
  rw [handle, if_neg (by simp [hentry]), prepare, hfind] at h
  dsimp only at h
  rw [moduleCode] at h hcode
  cases hread : Component.read r.path source with
  | error e =>
    rw [hread] at hcode
    cases hcode
  | ok c =>
    rw [hread] at h hcode
    cases hcode
    dsimp only [Except.map, finish] at h
    obtain ⟨behind, hbehind⟩ := Component.mainModule_eq r.path (s.clock.tick reading) c
    rw [hbehind] at h htext
    rcases hresolve : Import.resolveAll (s.config.resolution tree)
        (Component.importStart ++ Component.templateUrl r.path (s.clock.tick reading) ++
          ['"', '\n'] ++ behind) s.memo with ⟨_ | text', memo⟩
    · rw [hresolve] at htext
      cases htext
    · rw [hresolve] at h htext
      cases htext
      cases h
      exact ⟨hentry, rfl, source, behind, text, hfind, hresolve, hbody⟩

end Server

/-! ## Along a session -/

/-- A main module that a session serves. -/
structure MainModule where
  /-- The request that it answers. -/
  request : Request
  /-- The last token behind the request. -/
  token : Nat
  /-- Content. -/
  body : Bytes
deriving DecidableEq, Repr

namespace Session

variable {s : Session} {x : Step} {m : MainModule}

/-- The main module that is served in a step, if one is. -/
def mainModule? (s : Session) (x : Step) : Option MainModule :=
  match x, (s.step x).1 with
  | .handle request _, .served (.ok ⟨.component .main, body⟩) =>
    some ⟨request, (s.step x).2.server.clock.last, body⟩
  | _, _ => none

/-- The main modules that are served in steps, in order. -/
def mainModules (s : Session) : List Step → List MainModule
  | [] => []
  | x :: xs => (s.mainModule? x).toList ++ mainModules (s.step x).2 xs

theorem mainModule?_eq_some (h : s.mainModule? x = some m) :
    ∃ reading, (s.server.handle s.tree reading m.request) =
        (.ok ⟨.component .main, m.body⟩, (s.step x).2.server) ∧
      m.token = (s.step x).2.server.clock.last := by
  unfold mainModule? at h
  split at h
  · rename_i request reading body hanswer
    cases h
    have hserved : (s.server.handle s.tree reading request).1 =
        .ok ⟨.component .main, body⟩ := by
      simpa only [step, Answer.served.injEq] using hanswer
    exact ⟨reading, Prod.ext hserved rfl, rfl⟩
  · cases h

/-- No step takes the last token back. -/
theorem clock_step (s : Session) (x : Step) : (s.step x).2.server.clock = s.server.clock ∨
    ∃ reading, (s.step x).2.server.clock = s.server.clock.advance reading := by
  cases x with
  | handle request reading =>
    rcases Server.clock_handle s.server s.tree reading request with h | h
    · exact .inl h
    · exact .inr ⟨reading, h⟩
  | _ => exact .inl rfl

theorem last_step (h : s.server.clock.last ≤ Clock.limit) (x : Step) :
    s.server.clock.last ≤ (s.step x).2.server.clock.last ∧
      (s.step x).2.server.clock.last ≤ Clock.limit := by
  rcases clock_step s x with hclock | ⟨reading, hclock⟩
  · rw [hclock]
    exact ⟨Nat.le_refl _, h⟩
  · rw [hclock]
    refine ⟨?_, Clock.tick_le_limit _ reading⟩
    show s.server.clock.last ≤ s.server.clock.tick reading
    unfold Clock.tick
    omega

/-- The token of a main module is greater than the last one before. -/
theorem last_mainModule? (h : s.server.clock.last ≤ Clock.limit) (hm : s.mainModule? x = some m)
    (hlast : s.server.clock.last ≠ Clock.limit) : s.server.clock.last < m.token := by
  obtain ⟨reading, hserved, htoken⟩ := mainModule?_eq_some hm
  obtain ⟨-, hclock, -⟩ := Server.exists_of_main hserved rfl
  rw [htoken, hclock]
  exact Clock.lt_tick_of_le (Nat.le_refl _) h hlast reading

/-- The tokens of the main modules that a session goes on to serve are greater than its last one. -/
theorem last_mainModules (steps : List Step) : ∀ s : Session, s.server.clock.last ≤ Clock.limit →
    ∀ m ∈ s.mainModules steps, s.server.clock.last ≤ m.token ∧
      (s.server.clock.last ≠ Clock.limit → s.server.clock.last < m.token) := by
  induction steps with
  | nil =>
    intro s _ m hm
    cases hm
  | cons x steps ih =>
    intro s hs m hm
    obtain ⟨hle, hbound⟩ := last_step hs x
    rcases List.mem_append.1 hm with hm | hm
    · have hsome : s.mainModule? x = some m := Option.mem_toList.1 hm
      obtain ⟨reading, -, htoken⟩ := mainModule?_eq_some hsome
      exact ⟨htoken ▸ hle, last_mainModule? hs hsome⟩
    · obtain ⟨hle', hless⟩ := ih _ hbound m hm
      refine ⟨Nat.le_trans hle hle', fun hlast => ?_⟩
      omega

/-- The tokens of the main modules that a session serves increase. -/
theorem pairwise_mainModules (steps : List Step) : ∀ s : Session,
    s.server.clock.last ≤ Clock.limit →
      (s.mainModules steps).Pairwise fun m n => m.token ≠ Clock.limit → m.token < n.token := by
  induction steps with
  | nil =>
    intro s _
    exact .nil
  | cons x steps ih =>
    intro s hs
    obtain ⟨-, hbound⟩ := last_step hs x
    refine List.pairwise_append.2 ⟨?_, ih _ hbound, ?_⟩
    · cases s.mainModule? x with
      | none => exact .nil
      | some m => exact List.pairwise_singleton _ _
    · intro m hm n hn hlimit
      obtain ⟨reading, -, htoken⟩ := mainModule?_eq_some (Option.mem_toList.1 hm)
      rw [htoken] at hlimit ⊢
      exact (last_mainModules steps _ hbound n hn).2 hlimit

/-- A main module that a session serves was served in one of its states. -/
theorem exists_of_mem_mainModules {steps : List Step} :
    ∀ {s : Session}, m ∈ s.mainModules steps → ∃ before x after, steps = before ++ x :: after ∧
      (s.run before).2.mainModule? x = some m := by
  induction steps with
  | nil =>
    intro s hm
    cases hm
  | cons x steps ih =>
    intro s hm
    rcases List.mem_append.1 hm with hm | hm
    · exact ⟨[], x, steps, rfl, Option.mem_toList.1 hm⟩
    · obtain ⟨before, y, after, rfl, hsome⟩ := ih hm
      exact ⟨x :: before, y, after, rfl, hsome⟩

/-- The first line of a main module that is served holds its token, behind what is written for the
path. -/
theorem exists_body_of_mainModule? (hm : s.mainModule? x = some m)
    (hslash : m.request.path.head? = some '/') : ∃ path' behind,
      m.body = Utf8.encode (Component.importStart ++
        (path' ++ "?type=template&d=".toList ++ decimal m.token) ++ ['"', '\n'] ++ behind) ∧
      (Import.mistaken m.request.path = [] → path' = Component.encodePath m.request.path) := by
  obtain ⟨reading, hserved, htoken⟩ := mainModule?_eq_some hm
  obtain ⟨-, -, source, behind, text, -, htext, hbody⟩ := Server.exists_of_main hserved rfl
  obtain ⟨-, -, path', -, behind', -, -, hsame, rfl⟩ := Import.resolveAll_templateUrl hslash htext
  rw [← htoken] at hbody
  exact ⟨path', behind', hbody, hsame⟩

end Session

/-- Tokens increase as long as they are not the greatest one. Calls made at once return what they
stored, which is at least what they read off the clock, in the order in which they stored it,
whatever the clock shows and whatever the order of their moves. And along a session the main modules
that are served carry one token after the other in their first lines, whatever else happens in
between. -/
theorem tokens_increase :
    (∀ (clock : Clock) (moves : List Clock.Move) (s : Clock.Calls),
      (Clock.Calls.start clock).run? moves = some s →
        (s.returned.Pairwise fun p q => p.2 ≠ Clock.limit → p.2 < q.2) ∧
        (∀ p ∈ s.returned, p.2 = p.1.stored ∧ (∃ time, .read p.1.call time ∈ moves) ∧
          ∀ time, .read p.1.call time ∈ moves → Clock.reading time ≤ p.2) ∧
        (s.updates.map Clock.Update.call).Nodup ∧
        ∀ call token, s.stage call = .returned token → (⟨call, token⟩, token) ∈ s.returned) ∧
    ∀ (config : Config) (tree : FileTree) (steps : List Step),
      let served := (Session.start config tree).mainModules steps
      (served.Pairwise fun m n => m.token ≠ Clock.limit → m.token < n.token) ∧
        ∀ m ∈ served, m.request.path.head? = some '/' → ∃ path' behind,
          m.body = Utf8.encode (Component.importStart ++
            (path' ++ "?type=template&d=".toList ++ decimal m.token) ++ ['"', '\n'] ++ behind) ∧
          (Import.mistaken m.request.path = [] → path' = Component.encodePath m.request.path) := by
  constructor
  · intro clock moves s h
    exact Clock.Calls.returned_increase h
  · intro config tree steps served
    constructor
    · exact Session.pairwise_mainModules steps _ (Nat.zero_le _)
    · intro m hm hslash
      obtain ⟨before, x, after, -, hsome⟩ := Session.exists_of_mem_mainModules hm
      exact Session.exists_body_of_mainModule? hsome hslash

/-- Two calls of which the first to read the clock is the last to store, with a clock that runs
backwards and an exchange refused; and a session in which a request takes a token and fails. -/
theorem tokens_increase_mixed :
    let moves : List Clock.Move := [.read 1 9, .look 1, .read 2 (-4), .look 2, .exchange 2 true,
      .exchange 2 false, .exchange 1 false, .exchange 1 false, .give 1, .give 2]
    let request (path : String) : Request := .ofRaw path.toList none
    let steps : List Step := [.handle (request "/App.vue") 7,
      .write "/p/B.vue".toList (Utf8.encode "<script>import 'x'</script>".toList),
      .handle (request "/B.vue") 5, .reload, .handle (request "/App.vue") 3]
    let session := Session.start { root := "/p".toList }
      (Server.oneComponent "<template><p/></template>".toList)
    (∃ s, (Clock.Calls.start .start).run? moves = some s ∧
      s.returned = [(⟨2, 1⟩, 1), (⟨1, 9⟩, 9)] ∧
        s.returned.Pairwise fun p q => p.2 ≠ Clock.limit → p.2 < q.2) ∧
      (session.mainModules steps).map MainModule.token = [7, 9] ∧
        (session.mainModules steps).Pairwise fun m n => m.token < n.token := by
  intro moves request steps session
  obtain ⟨hcalls, hsession⟩ := tokens_increase
  constructor
  · have hrun : ((Clock.Calls.start .start).run? moves).map Clock.Calls.returned =
        some [(⟨2, 1⟩, 1), (⟨1, 9⟩, 9)] := by decide +kernel
    obtain ⟨s, hs, hreturned⟩ := Option.map_eq_some_iff.1 hrun
    exact ⟨s, hs, hreturned, (hcalls _ _ _ hs).1⟩
  · have htokens : (session.mainModules steps).map MainModule.token = [7, 9] := by decide +kernel
    refine ⟨htokens, (hsession _ _ steps).1.imp_of_mem fun {m n} hm _ hless => hless ?_⟩
    have hm : m.token ∈ [7, 9] := htokens ▸ List.mem_map_of_mem hm
    intro hlimit
    rw [hlimit] at hm
    exact absurd hm (by decide)

end ModuleServer
