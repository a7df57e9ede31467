import ModuleServer.Proofs.Expression.Neutral
import ModuleServer.Proofs.Expression.Parameters
import ModuleServer.Proofs.Render.Neutral
import ModuleServer.Proofs.Script.Semicolon
import ModuleServer.Proofs.Text.Pieces

/-!
# Statements in listeners

A listener that is no path and no function is put into round brackets, as the value of a function.
That is right for one expression. Several, with semicolons between them, are statements, and then
the brackets hold semicolons, which no code may.

* `strays_prefixNames?`: putting names into the context neither adds semicolons nor moves them into
  brackets.
* `listen_statements`: the listener of several statements is always written, and it has a stray
  semicolon unless it is taken for a function and stands as it is. The texts of expressions are
  balanced (`Code.neutral_render`).
-/

namespace ModuleServer

open Text Script Template

/-! ## In the context -/

namespace Expression

section Context

variable {s s' next : State} {locals : List Text} {exp code rest t : Text} {pieces : List Piece}
  {layers : List Layer}

theorem semicolon_not_mem_output {n : Text} (h : n.all isNameChar) (role : Role) :
    ';' ∉ n ∧ ';' ∉ (Piece.name n role).output := by
  have hname : ';' ∉ n := fun hmem => absurd (List.all_eq_true.1 h _ hmem) (by decide)
  refine ⟨hname, ?_⟩
  cases role with
  | bound => exact hname
  | free => simpa [Piece.output] using hname
  | entry => simpa [Piece.output] using hname

/-- What stands in brackets behind states that cannot be told apart is the same. -/
theorem Near.strays (h : Near s s' (t ++ rest)) (ht : t ≠ []) : s.strays t = s'.strays t := by
  cases t with
  | nil => exact absurd rfl ht
  | cons c t => rw [State.strays, State.strays, h.step, h.layers_eq]

/-- What is written for pieces of code has the stray semicolons of the code. -/
theorem strays_output (hproper : ∀ p ∈ pieces, p.IsProper)
    (hnear : Near s s' (pieces.flatMap Piece.source)) (hmisread : misreads s' pieces = false)
    (h : s'.run (pieces.flatMap Piece.source) = some next) :
    s.strays (pieces.flatMap Piece.output) = s'.strays (pieces.flatMap Piece.source) := by
  induction pieces generalizing s s' with
  | nil => rfl
  | cons p pieces ih =>
    obtain ⟨hp, hpieces⟩ := List.forall_mem_cons.1 hproper
    rw [List.flatMap_cons] at hnear h
    rw [State.run_append] at h
    obtain ⟨middle, hmiddle, hrest⟩ := Option.bind_eq_some_iff.1 h
    rw [misreads, Bool.or_eq_false_iff, hmiddle] at hmisread
    obtain ⟨found, hfound, hafter⟩ := exists_near_of_output hp hnear hmisread.1 hmiddle
    have hpiece : s.strays p.output = s'.strays p.source := by
      cases p with
      | verbatim t => exact hnear.strays hp
      | name n role =>
        obtain ⟨hname, houtput⟩ := semicolon_not_mem_output hp.2 role
        exact (strays_of_not_mem houtput s).trans (strays_of_not_mem hname s').symm
    rw [List.flatMap_cons, List.flatMap_cons, strays_append, strays_append, hfound, hmiddle, hpiece,
      Option.any_some, Option.any_some, ih hpieces hafter hmisread.2 hrest]

/-- Whether pieces are misread does not depend on what is open around them. -/
theorem misreads_append_layers {above below : List Layer} {pending : Pending}
    (hbelow : isCode below)
    (h : State.run ⟨above, pending⟩ (pieces.flatMap Piece.source) = some next) :
    misreads ⟨above ++ below, pending⟩ pieces = misreads ⟨above, pending⟩ pieces := by
  induction pieces generalizing above pending with
  | nil => rfl
  | cons p pieces ih =>
    have hhidden : isHidden ⟨above ++ below, pending⟩ = isHidden ⟨above, pending⟩ := by
      cases above with
      | nil =>
        cases below with
        | nil => rfl
        | cons layer below =>
          have hlayer : layer ≠ .literal := by
            rintro rfl
            cases hbelow
          simp [isHidden, hlayer]
      | cons layer above => rfl
    rw [List.flatMap_cons, State.run_append] at h
    obtain ⟨⟨middle, between⟩, hmiddle, hrest⟩ := Option.bind_eq_some_iff.1 h
    rw [misreads, misreads, hhidden, run_append_layers hbelow hmiddle, hmiddle, Option.any_some,
      Option.any_some, ih hrest]

/-- Balanced code has the same stray semicolons when its names have been put into the context, if
nothing is misread. -/
theorem strays_prefixNames? (hexp : IsBalanced exp) (hmisread : isMisread exp = false)
    (hlayers : isCode layers) (h : prefixNames? locals exp = some code) :
    State.strays ⟨layers, .none⟩ code = State.strays ⟨layers, .none⟩ exp := by
  obtain ⟨names, -, rfl⟩ := Option.map_eq_some_iff.1 h
  generalize hpieces : readPieces (names ++ locals) exp = pieces
  have hsource : pieces.flatMap Piece.source = exp := by
    rw [← hpieces, flatMap_source_readPieces]
  have hstart : State.start.run (pieces.flatMap Piece.source) = some .start := hsource ▸ hexp
  have hread : misreads ⟨layers, .none⟩ pieces = false := by
    have hsame : misreads ⟨[] ++ layers, .none⟩ pieces = misreads .start pieces :=
      misreads_append_layers hlayers hstart
    rw [List.nil_append] at hsame
    rw [hsame, ← hpieces, misreads_readPieces, hmisread]
  have hproper : ∀ p ∈ pieces, p.IsProper := hpieces ▸ isProper_scan _ _ _
  have hrun := IsBalanced.neutral hstart layers hlayers
  rw [strays_output hproper (.inl rfl) hread hrun, hsource]

end Context

/-- A path is made of names, dots and the white space around them. -/
theorem semicolon_not_mem_of_isMemberPath {exp : Text} (h : isMemberPath exp) : ';' ∉ exp := by
  intro hmem
  rw [isMemberPath, Bool.and_eq_true] at h
  obtain ⟨first, last, hcut, hfirst, hlast⟩ := exists_trim exp
  have htrim : ';' ∈ trim exp := by
    rw [hcut, List.mem_append, List.mem_append] at hmem
    rcases hmem with (hmem | hmem) | hmem
    · exact absurd hmem (semicolon_not_mem_white hfirst)
    · exact hmem
    · exact absurd hmem (semicolon_not_mem_white hlast)
  obtain ⟨piece, hpiece, hmem⟩ : ∃ piece ∈ pieces (· = '.') (trim exp), ';' ∈ piece :=
    exists_mem_pieces htrim (by decide)
  have hname := List.all_eq_true.1 h.2 piece hpiece
  cases piece with
  | nil => cases hmem
  | cons c t =>
    rw [isName, Bool.and_eq_true] at hname
    rcases List.mem_cons.1 hmem with rfl | hmem
    · exact absurd hname.1 (by decide)
    · exact absurd (List.all_eq_true.1 hname.2 _ hmem) (by decide)

end Expression

/-! ## Listeners -/

namespace Render

section Listeners

variable {locals : List Text} {exp code f : Text} {layers : List Layer}

/-- A function under modifiers stands in the round brackets of a call. -/
theorem strays_wrap (helper : Helper) (modifiers : List Text) (hf : Neutral f)
    (hlayers : isCode layers) :
    State.strays ⟨layers, .none⟩ (Value.wrap helper modifiers f) =
      if modifiers.isEmpty then State.strays ⟨layers, .none⟩ f
      else State.strays ⟨.round :: layers, .none⟩ f := by
  rw [Value.wrap]
  split
  · rfl
  · have hname : Quiet helper.localName := .of_not_mem (neutral_localName helper) (by
      cases helper <;> decide)
    have hseparator : Quiet [',', ' '] := .of_not_mem neutral_separator (by decide)
    have hquotes : ∀ t ∈ modifiers.map quote, Quiet t := by
      intro t ht
      obtain ⟨m, -, rfl⟩ := List.mem_map.1 ht
      exact .quote m
    have harray : Quiet (shortArray (modifiers.map quote)) :=
      (Quiet.joined hseparator hquotes).square
    have hcall : ∀ array, call helper.localName [f, array] =
        helper.localName ++ '(' :: (f ++ ([',', ' '] ++ array) ++ [')']) := by
      simp [call, joined]
    rw [hcall, strays_round hname hf (hseparator.append harray) hlayers]

theorem strays_evaluate (hcode : Neutral code) (hlayers : isCode layers) :
    State.strays ⟨layers, .none⟩ (Reaction.evaluate code).print =
      State.strays ⟨.round :: layers, .none⟩ code := by
  have hfront : Quiet "$event => ".toList := .of_not_mem (.plain (by decide)) (by decide)
  have hprint : (Reaction.evaluate code).print =
      "$event => ".toList ++ '(' :: (code ++ [] ++ [')']) := by
    rw [List.append_nil]
    exact List.append_assoc _ _ _
  rw [hprint, strays_round hfront hcode (.of_not_mem .nil List.not_mem_nil) hlayers]

/-- A listener has the stray semicolons of what it does, if that stands as it is, and otherwise
those that this has in round brackets. -/
theorem hasStray_listener {reaction : Reaction} {within : Bool} (h : Neutral reaction.print)
    (hwithin : ∀ layers, isCode layers →
      State.strays ⟨.round :: layers, .none⟩ reaction.print = within) (guards keys : List Text) :
    hasStray (Value.listener reaction guards keys).print =
      if guards.isEmpty && keys.isEmpty then hasStray reaction.print else within := by
  have hcode : isCode [] := rfl
  have hround : isCode [.round] := rfl
  have hguarded := neutral_wrap .withModifiers guards h
  rw [hasStray, hasStray, Value.print]
  show State.strays ⟨[], .none⟩ _ = if _ then State.strays ⟨[], .none⟩ _ else _
  rw [strays_wrap .withKeys keys hguarded hcode, strays_wrap .withModifiers guards h hcode,
    strays_wrap .withModifiers guards h hround, hwithin [] hcode, hwithin [.round] hround]
  cases guards.isEmpty <;> cases keys.isEmpty <;> rfl

/-- What a listener does is always told, if its expression has no arrow: nothing, the expression, or
evaluating it. -/
theorem exists_react (locals : List Text) (harrow : has ['=', '>'] (trim exp) = false) :
    ∃ reaction, react locals (some exp) = .ok reaction ∧
      (trim exp = [] ∧ reaction = .nothing ∨ ∃ bound code,
        Expression.prefixNames? bound (trim exp) = some code ∧
          reaction = if Expression.isMemberPath (trim exp) || Expression.isFunction (trim exp)
            then .function code else .evaluate code) := by
  have hsome : ∀ bound, ∃ code, Expression.prefixNames? bound (trim exp) = some code := by
    intro bound
    rw [Expression.prefixNames?, Expression.parameterNames?,
      Expression.arrowParameters?_eq_nil harrow]
    exact ⟨_, rfl⟩
  rw [react, Option.map_some]
  cases htrim : trim exp with
  | nil => exact ⟨.nothing, rfl, .inl ⟨rfl, rfl⟩⟩
  | cons c t =>
    dsimp only
    rw [htrim] at hsome
    split
    · rename_i hplain
      obtain ⟨code, hcode⟩ := hsome locals
      rw [inContext, hcode]
      exact ⟨.function code, rfl, .inr ⟨locals, code, hcode, rfl⟩⟩
    · rename_i hplain
      obtain ⟨code, hcode⟩ := hsome ("$event".toList :: locals)
      rw [inContext, hcode]
      exact ⟨.evaluate code, rfl, .inr ⟨_, code, hcode, rfl⟩⟩

/-- What is done with balanced code whose semicolons are stray exactly right inside of round
brackets has them there, and by itself unless it stands as it is. -/
theorem strays_reaction {reaction : Reaction} {some? : Bool} (hbalanced : IsBalanced exp)
    (hread : Expression.isMisread (trim exp) = false) (harrow : has ['=', '>'] (trim exp) = false)
    (hstrays : ∀ layers, isCode layers →
      State.strays ⟨layers, .none⟩ exp = (layers.head? = some .round && some?))
    (h : react locals (some exp) = .ok reaction) :
    Neutral reaction.print ∧
      (∀ layers, isCode layers →
        State.strays ⟨.round :: layers, .none⟩ reaction.print = some?) ∧
      hasStray reaction.print = (some? && !Expression.isFunction (trim exp)) := by
  have hcode : isCode [] := rfl
  have htrim : ∀ layers, isCode layers → State.strays ⟨layers, .none⟩ (trim exp) =
      (layers.head? = some .round && some?) := by
    intro layers hlayers
    rw [strays_trim exp hlayers, hstrays layers hlayers]
  have hround : ∀ layers, State.strays ⟨.round :: layers, .none⟩ (trim exp) = some? :=
    fun layers => (htrim (.round :: layers) rfl).trans (Bool.true_and _)
  obtain ⟨reaction', hreact, hcases⟩ := exists_react locals harrow
  obtain rfl : reaction' = reaction := Except.ok.inj (hreact.symm.trans h)
  rcases hcases with ⟨hnil, rfl⟩ | ⟨bound, code, hcontext, rfl⟩
  · -- without an expression there is no semicolon
    have hnone : some? = false := by
      rw [← hround [], hnil]
      rfl
    rw [hnone]
    refine ⟨neutral_nothing, fun layers _ => strays_of_not_mem (by decide) _, ?_⟩
    exact strays_of_not_mem (by decide) _
  · have hneutral : Neutral code :=
      (Expression.balanced_prefixNames? hbalanced.trim hread hcontext).neutral
    have hsame : ∀ layers, isCode layers → State.strays ⟨layers, .none⟩ code =
        (layers.head? = some .round && some?) := by
      intro layers hlayers
      rw [Expression.strays_prefixNames? hbalanced.trim hread hlayers hcontext,
        htrim layers hlayers]
    by_cases hplain :
      (Expression.isMemberPath (trim exp) || Expression.isFunction (trim exp)) = true
    · rw [if_pos hplain]
      refine ⟨hneutral, fun layers _ => (hsame (.round :: layers) rfl).trans (Bool.true_and _), ?_⟩
      have hself : hasStray code = false := hsame [] hcode
      cases hfunction : Expression.isFunction (trim exp) with
      | true => exact hself.trans (Bool.and_false _).symm
      | false =>
        -- a path has no semicolon
        rw [hfunction, Bool.or_false] at hplain
        have hnone : some? = false := by
          rw [← hround []]
          exact strays_of_not_mem (Expression.semicolon_not_mem_of_isMemberPath hplain) _
        rw [hnone]
        exact hself
    · rw [if_neg hplain]
      refine ⟨neutral_evaluate hneutral, fun layers _ => ?_, ?_⟩
      · exact (strays_evaluate hneutral (show isCode (.round :: layers) from rfl)).trans
          ((hsame _ rfl).trans (Bool.true_and _))
      · have hfunction : Expression.isFunction (trim exp) = false := by
          rw [Bool.not_eq_true, Bool.or_eq_false_iff] at hplain
          exact hplain.2
        rw [hfunction, Bool.not_false, Bool.and_true]
        exact (strays_evaluate hneutral hcode).trans ((hsame _ rfl).trans (Bool.true_and _))

theorem listen_of_react {d : Directive} {reaction : Reaction} (event : Text)
    (h : react locals d.exp = .ok reaction) : ∃ key guards keys,
      listen locals event d = .ok (.append key (.listener reaction guards keys)) ∧
        ((guards.isEmpty && keys.isEmpty) = true ↔ ∀ m ∈ d.modifiers, m ∈ optionModifiers) := by
  refine ⟨_, _, _, by rw [listen, h]; rfl, ?_⟩
  rw [Bool.and_eq_true, List.isEmpty_iff, List.isEmpty_iff]
  constructor
  · rintro ⟨hguards, hkeys⟩ m hm
    by_contra hoption
    have hother : m ∈ d.modifiers.filter fun m => !optionModifiers.contains m :=
      List.mem_filter.2 ⟨hm, by simpa using hoption⟩
    -- what is no option is a guard or a key
    have hguard := List.filter_eq_nil_iff.1 hguards m hother
    have hkey := List.filter_eq_nil_iff.1 hkeys m hother
    rw [Bool.not_eq_true', Bool.not_eq_false] at hkey
    exact hguard hkey
  · intro hoptions
    have hnone : (d.modifiers.filter fun m => !optionModifiers.contains m) = [] := by
      refine List.filter_eq_nil_iff.2 fun m hm => ?_
      simp [hoptions m hm]
    rw [hnone]
    exact ⟨rfl, rfl⟩

end Listeners

/-- A listener of several statements, or of one that is closed by a semicolon, is always written,
and has a stray semicolon whatever its modifiers are, unless the statements are taken for a function
that stands as it is. -/
theorem listen_statements (locals : List Text) (event : Text) {d : Directive} {exps : List Text}
    {closed : Bool} (hexp : d.exp = some (statements exps closed))
    (hbalanced : ∀ t ∈ exps, IsBalanced t) (hsemicolon : ∀ t ∈ exps, ';' ∉ t)
    (harrow : ∀ t ∈ exps, has ['=', '>'] t = false)
    (hread : Expression.isMisread (trim (statements exps closed)) = false) :
    ∃ key value, listen locals event d = .ok (.append key value) ∧
      (hasStray value.print ↔ (1 < exps.length ∨ closed) ∧
        ¬(Expression.isFunction (trim (statements exps closed)) ∧
          ∀ m ∈ d.modifiers, m ∈ optionModifiers)) := by
  have hstrays : ∀ layers, isCode layers →
      State.strays ⟨layers, .none⟩ (statements exps closed) =
        (layers.head? = some .round && (decide (1 < exps.length) || closed)) :=
    fun layers hlayers => strays_statements hbalanced hsemicolon hlayers closed
  have hnone : has ['=', '>'] (trim (statements exps closed)) = false := by
    obtain ⟨first, last, hcut, -, -⟩ := exists_trim (statements exps closed)
    exact has_of_append (by simp) (hcut ▸ has_statements (by simp) (by decide) (by decide)
      harrow closed)
  obtain ⟨reaction, hreact, -⟩ := exists_react locals hnone
  obtain ⟨hneutral, hwithin, hself⟩ :=
    strays_reaction (balanced_statements hbalanced closed) hread hnone hstrays hreact
  rw [← hexp] at hreact
  obtain ⟨key, guards, keys, hlisten, hmodifiers⟩ := listen_of_react event hreact
  refine ⟨key, _, hlisten, ?_⟩
  rw [hasStray_listener hneutral hwithin, hself, ← hmodifiers]
  cases guards.isEmpty && keys.isEmpty <;> simp

/-- A call without arguments. -/
def plainCall (n : Expression.Name) : Expression.Code :=
  .call (.name n) .none (.none .none)

/-- A listener that makes two calls. -/
def twoCalls : Directive :=
  ⟨"on".toList, some "click".toList, some "a(); b()".toList, [], ⟨3, 20⟩⟩

/-- Two calls are put into round brackets together. -/
theorem listen_statements_twoCalls :
    let calls := [plainCall (.mk "a".toList), plainCall (.mk "b".toList)]
    let value := Value.listener (.evaluate "_ctx.a(); _ctx.b()".toList) [] []
    twoCalls.exp = some (statements (calls.map Expression.Code.render) false) ∧
      listen [] "click".toList twoCalls = .ok (.append "onClick".toList value) ∧
      value.print = "$event => (_ctx.a(); _ctx.b())".toList ∧ hasStray value.print := by
  intro calls value
  have hexp : twoCalls.exp = some (statements (calls.map Expression.Code.render) false) := by
    decide +kernel
  have hlisten : listen [] "click".toList twoCalls = .ok (.append "onClick".toList value) := by
    decide +kernel
  have hbalanced : ∀ t ∈ calls.map Expression.Code.render, IsBalanced t := by
    intro t ht
    obtain ⟨e, -, rfl⟩ := List.mem_map.1 ht
    exact e.neutral_render.balanced
  obtain ⟨key, found, hfound, hstray⟩ := listen_statements [] "click".toList hexp hbalanced
    (by decide) (by decide) (Expression.isMisread_of_not_mem (by decide +kernel))
  cases hlisten.symm.trans hfound
  exact ⟨hexp, hlisten, by decide +kernel, hstray.2 ⟨.inl (by decide), by decide +kernel⟩⟩

end Render

end ModuleServer
