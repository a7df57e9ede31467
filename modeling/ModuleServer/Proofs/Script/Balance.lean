import Mathlib.Tactic.SplitIfs
import ModuleServer.Proofs.Text.Run
import ModuleServer.Script.Literal

/-!
# Balanced code

A scan of code that knows strings, template literals with holes, and brackets. What is open is a
stack of layers; the scan stops where a bracket closes what it does not match. Code is balanced if
the scan ends with nothing open.

Balanced code does nothing to a scan that stands in code, whatever is open around it
(`IsBalanced.neutral`), so pieces of code can be put together: next to each other (`Neutral.append`)
and between brackets (`Neutral.round` and its siblings). A quoted text is neutral whatever it holds
(`neutral_quote`).
-/

namespace ModuleServer.Script

open Text

/-! ## The scan -/

/-- What can be open. -/
inductive Layer where
  /-- A round bracket. -/
  | round
  /-- A square bracket. -/
  | square
  /-- A curly bracket. -/
  | curly
  /-- A hole of a template literal. -/
  | hole
  /-- The text of a template literal. -/
  | literal
  /-- A string in double quotes. -/
  | double
  /-- A string in single quotes. -/
  | single
deriving DecidableEq, Repr

/-- What the last character makes of the next one. -/
inductive Pending where
  /-- Nothing. -/
  | none
  /-- It stands for itself. -/
  | escape
  /-- It opens a hole if it is a curly bracket. -/
  | dollar
deriving DecidableEq, Repr

/-- Where the scan is: what is open, innermost first, and what is known of the next character. -/
structure State where
  /-- What is open. -/
  layers : List Layer
  /-- What the last character makes of the next one. -/
  pending : Pending
deriving DecidableEq, Repr

/-- Nothing is open. -/
def State.start : State :=
  ⟨[], .none⟩

/-- One more character inside of a string. -/
def stepQuoted (layer : Layer) (quote : Char) (outer : List Layer) (pending : Pending) (c : Char) :
    State :=
  if pending = .escape then ⟨layer :: outer, .none⟩
  else if c = '\\' then ⟨layer :: outer, .escape⟩
  else if c = quote then ⟨outer, .none⟩
  else ⟨layer :: outer, .none⟩

/-- One more character in the text of a template literal. -/
def stepLiteral (outer : List Layer) (pending : Pending) (c : Char) : State :=
  if pending = .escape then ⟨.literal :: outer, .none⟩
  else if c = '\\' then ⟨.literal :: outer, .escape⟩
  else if c = '`' then ⟨outer, .none⟩
  else if pending = .dollar ∧ c = '{' then ⟨.hole :: .literal :: outer, .none⟩
  else if c = '$' then ⟨.literal :: outer, .dollar⟩
  else ⟨.literal :: outer, .none⟩

/-- What a character of code opens. -/
def opened? (c : Char) : Option Layer :=
  if c = '(' then some .round
  else if c = '[' then some .square
  else if c = '{' then some .curly
  else if c = '`' then some .literal
  else if c = '"' then some .double
  else if c = '\'' then some .single
  else none

/-- Whether a character of code closes a layer. -/
def closes (c : Char) : Layer → Bool
  | .round => c = ')'
  | .square => c = ']'
  | .curly => c = '}'
  | .hole => c = '}'
  | _ => false

/-- One more character in code, where `layers` are open. -/
def stepCode (layers : List Layer) (c : Char) : Option State :=
  match opened? c with
  | some layer => some ⟨layer :: layers, .none⟩
  | none =>
    if c = ')' ∨ c = ']' ∨ c = '}' then
      match layers with
      | layer :: outer => if closes c layer then some ⟨outer, .none⟩ else none
      | [] => none
    else some ⟨layers, .none⟩

/-- One more character. There is no answer where a bracket closes what it does not match. -/
def State.step (s : State) (c : Char) : Option State :=
  match s.layers with
  | .double :: outer => some (stepQuoted .double '"' outer s.pending c)
  | .single :: outer => some (stepQuoted .single '\'' outer s.pending c)
  | .literal :: outer => some (stepLiteral outer s.pending c)
  | layers => stepCode layers c

/-- A text after what has been scanned. -/
def State.run (s : State) (t : Text) : Option State :=
  t.foldlM State.step s

/-- Whether nothing is open behind a text, every bracket being closed by its match. -/
def IsBalanced (t : Text) : Prop :=
  State.start.run t = some .start

instance (t : Text) : Decidable (IsBalanced t) :=
  inferInstanceAs (Decidable (State.start.run t = some .start))

namespace State

variable {s next : State} {t u : Text}

@[simp] theorem run_nil (s : State) : s.run [] = some s :=
  rfl

theorem run_cons (s : State) (c : Char) (t : Text) :
    s.run (c :: t) = (s.step c).bind fun next => next.run t :=
  List.foldlM_cons

theorem run_append (s : State) (t u : Text) :
    s.run (t ++ u) = (s.run t).bind fun next => next.run u :=
  List.foldlM_append

end State

/-! ## Code -/

/-- Whether code goes on inside of a layer. -/
def Layer.isCode : Layer → Bool
  | .literal => false
  | .double => false
  | .single => false
  | _ => true

/-- Whether code goes on where the given layers are open. -/
def isCode (layers : List Layer) : Bool :=
  layers.head?.all Layer.isCode

theorem step_of_isCode {layers : List Layer} (h : isCode layers) (pending : Pending) (c : Char) :
    State.step ⟨layers, pending⟩ c = stepCode layers c := by
  cases layers with
  | nil => rfl
  | cons layer layers =>
    cases layer with
    | literal => cases h
    | double => cases h
    | single => cases h
    | _ => rfl

/-- A scan stands in code, in a string, or in the text of a template literal. -/
@[elab_as_elim]
theorem byPlace {P : List Layer → Prop} (code : ∀ layers, isCode layers → P layers)
    (double : ∀ outer, P (.double :: outer)) (single : ∀ outer, P (.single :: outer))
    (literal : ∀ outer, P (.literal :: outer)) (layers : List Layer) : P layers := by
  cases layers with
  | nil => exact code [] rfl
  | cons layer outer =>
    cases layer with
    | literal => exact literal outer
    | double => exact double outer
    | single => exact single outer
    | _ => exact code _ rfl

section Layers

variable {above below layers outer : List Layer} {layer : Layer} {pending next : Pending}
  {quote c : Char} {t : Text}

theorem stepCode_append (h : stepCode above c = some ⟨layers, pending⟩) :
    stepCode (above ++ below) c = some ⟨layers ++ below, pending⟩ := by
  unfold stepCode at h ⊢
  cases hopened : opened? c with
  | some layer =>
    rw [hopened] at h
    cases h
    rfl
  | none =>
    rw [hopened] at h
    dsimp only at h ⊢
    split
    · rename_i hclosing
      rw [if_pos hclosing] at h
      cases above with
      | nil => cases h
      | cons layer above =>
        rw [List.cons_append]
        dsimp only at h ⊢
        split
        · rename_i hcloses
          rw [if_pos hcloses] at h
          cases h
          rfl
        · rename_i hcloses
          rw [if_neg hcloses] at h
          cases h
    · rename_i hclosing
      rw [if_neg hclosing] at h
      cases h
      rfl

theorem stepQuoted_append (h : stepQuoted layer quote outer pending c = ⟨layers, next⟩) :
    stepQuoted layer quote (outer ++ below) pending c = ⟨layers ++ below, next⟩ := by
  unfold stepQuoted at h ⊢
  split_ifs at h ⊢ <;> cases h <;> rfl

theorem stepLiteral_append (h : stepLiteral outer pending c = ⟨layers, next⟩) :
    stepLiteral (outer ++ below) pending c = ⟨layers ++ below, next⟩ := by
  unfold stepLiteral at h ⊢
  split_ifs at h ⊢ <;> cases h <;> rfl

theorem isCode_append (habove : isCode above) (hbelow : isCode below) :
    isCode (above ++ below) := by
  cases above with
  | nil => exact hbelow
  | cons layer above => exact habove

/-- Layers below what is open, if code goes on there, do not matter to the scan. -/
theorem step_append (hbelow : isCode below)
    (h : State.step ⟨above, pending⟩ c = some ⟨layers, next⟩) :
    State.step ⟨above ++ below, pending⟩ c = some ⟨layers ++ below, next⟩ := by
  cases above using byPlace with
  | code above hcode =>
    rw [step_of_isCode hcode] at h
    rw [step_of_isCode (isCode_append hcode hbelow)]
    exact stepCode_append h
  | double above => exact congrArg some (stepQuoted_append (Option.some.inj h))
  | single above => exact congrArg some (stepQuoted_append (Option.some.inj h))
  | literal above => exact congrArg some (stepLiteral_append (Option.some.inj h))

theorem run_append_layers (hbelow : isCode below)
    (h : State.run ⟨above, pending⟩ t = some ⟨layers, next⟩) :
    State.run ⟨above ++ below, pending⟩ t = some ⟨layers ++ below, next⟩ := by
  induction t generalizing above pending with
  | nil =>
    cases h
    rfl
  | cons c t ih =>
    rw [State.run_cons] at h ⊢
    obtain ⟨⟨middle, between⟩, hstep, hrun⟩ := Option.bind_eq_some_iff.1 h
    rw [step_append hbelow hstep]
    exact ih hrun

end Layers

/-! ## Neutral texts -/

/-- Whether a text does nothing to a scan that stands in code. -/
def Neutral (t : Text) : Prop :=
  ∀ layers, isCode layers → State.run ⟨layers, .none⟩ t = some ⟨layers, .none⟩

theorem Neutral.balanced {t : Text} (h : Neutral t) : IsBalanced t :=
  h [] rfl

/-- Balanced code is neutral, whatever is open around it. -/
theorem IsBalanced.neutral {t : Text} (h : IsBalanced t) : Neutral t :=
  fun _ hlayers => run_append_layers hlayers h

namespace Neutral

variable {t u : Text} {ts : List Text}

theorem nil : Neutral [] :=
  fun _ _ => rfl

theorem append (ht : Neutral t) (hu : Neutral u) : Neutral (t ++ u) := by
  intro layers hlayers
  rw [State.run_append, ht layers hlayers]
  exact hu layers hlayers

/-- Whether a character opens and closes nothing. -/
def isPlain (c : Char) : Bool :=
  (opened? c).isNone && !(c = ')' || c = ']' || c = '}')

theorem stepCode_of_isPlain {c : Char} (h : isPlain c) (layers : List Layer) :
    stepCode layers c = some ⟨layers, .none⟩ := by
  simp only [isPlain, Bool.and_eq_true, Option.isNone_iff_eq_none, Bool.not_eq_true',
    Bool.or_eq_false_iff, decide_eq_false_iff_not] at h
  obtain ⟨hopened, ⟨hround, hsquare⟩, hcurly⟩ := h
  unfold stepCode
  rw [hopened]
  exact if_neg (by simp [hround, hsquare, hcurly])

theorem plain (h : t.all isPlain) : Neutral t := by
  induction t with
  | nil => exact nil
  | cons c t ih =>
    rw [List.all_cons, Bool.and_eq_true] at h
    intro layers hlayers
    rw [State.run_cons, step_of_isCode hlayers, stepCode_of_isPlain h.1]
    exact ih h.2 layers hlayers

theorem cons {c : Char} (hc : isPlain c) (ht : Neutral t) : Neutral (c :: t) :=
  append (t := [c]) (plain (by simpa using hc)) ht

/-- A text between two brackets that match. -/
theorem enclosed {opening closing : Char} {layer : Layer} (hlayer : layer.isCode)
    (hopening : ∀ layers, stepCode layers opening = some ⟨layer :: layers, .none⟩)
    (hclosing : ∀ layers, stepCode (layer :: layers) closing = some ⟨layers, .none⟩)
    (h : Neutral t) : Neutral (opening :: (t ++ [closing])) := by
  intro layers hlayers
  have hinside : isCode (layer :: layers) := hlayer
  rw [State.run_cons, step_of_isCode hlayers, hopening, Option.bind_some, State.run_append,
    h _ hinside, Option.bind_some, State.run_cons, step_of_isCode hinside, hclosing]
  rfl

theorem round (h : Neutral t) : Neutral ('(' :: (t ++ [')'])) :=
  enclosed rfl (fun _ => rfl) (fun _ => rfl) h

theorem square (h : Neutral t) : Neutral ('[' :: (t ++ [']'])) :=
  enclosed rfl (fun _ => rfl) (fun _ => rfl) h

theorem curly (h : Neutral t) : Neutral ('{' :: (t ++ ['}'])) :=
  enclosed rfl (fun _ => rfl) (fun _ => rfl) h

theorem joined {separator : Text} (hseparator : Neutral separator) (h : ∀ t ∈ ts, Neutral t) :
    Neutral (joined separator ts) := by
  induction ts with
  | nil => exact nil
  | cons t ts ih =>
    obtain ⟨ht, hts⟩ := List.forall_mem_cons.1 h
    cases ts with
    | nil => exact ht
    | cons u ts => exact (ht.append hseparator).append (ih hts)

end Neutral

/-! ## Quoted texts -/

/-- What is written for a character of a quoted text stays in the quotes. -/
theorem run_escape (c : Char) (outer : List Layer) :
    State.run ⟨.double :: outer, .none⟩ (escape c) = some ⟨.double :: outer, .none⟩ := by
  unfold escape
  split_ifs with hquote hback
  case neg =>
    rw [State.run_cons]
    simp [State.step, stepQuoted, hquote, hback]
  all_goals rfl

/-- A quoted text is neutral, whatever it holds. -/
theorem neutral_quote (t : Text) : Neutral (quote t) := by
  intro layers hlayers
  have hinside : ∀ t : Text, State.run ⟨.double :: layers, .none⟩ (t.flatMap escape) =
      some ⟨.double :: layers, .none⟩ := by
    intro t
    induction t with
    | nil => rfl
    | cons c t ih =>
      rw [List.flatMap_cons, State.run_append, run_escape]
      exact ih
  rw [quote, State.run_cons, step_of_isCode hlayers]
  show (State.run ⟨.double :: layers, .none⟩ (t.flatMap escape ++ ['"'])) = _
  rw [State.run_append, hinside]
  rfl

theorem isPlain_of_isPlainChar {c : Char} (h : isPlainChar c) : Neutral.isPlain c := by
  have hne : ∀ d, isPlainChar d = false → c ≠ d := by
    rintro d hd rfl
    exact absurd (h.symm.trans hd) Bool.noConfusion
  simp [Neutral.isPlain, opened?, hne '(' rfl, hne '[' rfl, hne '{' rfl, hne '`' rfl, hne '"' rfl,
    hne '\'' rfl, hne ')' rfl, hne ']' rfl, hne '}' rfl]

/-- A key is neutral, quoted or not. -/
theorem neutral_key (t : Text) : Neutral (key t) := by
  rw [key]
  split
  · rename_i hname
    refine .plain (List.all_eq_true.2 fun c hc => isPlain_of_isPlainChar ?_)
    exact List.all_eq_true.1 (all_isPlainChar_of_isPlainName hname) c hc
  · exact neutral_quote t

/-! ## White space around code -/

section White

variable {s next : State} {c : Char} {t white : Text} {layers : List Layer}

theorem isPlain_of_isWhite (h : isWhite c) : Neutral.isPlain c :=
  forall_white (P := fun c => Neutral.isPlain c) (by decide) h

theorem neutral_white (h : white.all isWhite) : Neutral white := by
  refine .plain ?_
  rw [List.all_eq_true] at h ⊢
  exact fun c hc => isPlain_of_isWhite (h c hc)

/-- Where code goes on, the last character makes nothing of the next one. -/
def State.Settled (s : State) : Prop :=
  isCode s.layers → s.pending = .none

theorem settled_stepCode (h : stepCode layers c = some next) : next.Settled := by
  intro _
  unfold stepCode at h
  split at h
  · cases h
    rfl
  split at h
  · split at h
    · split at h
      · cases h
        rfl
      · cases h
    · cases h
  · cases h
    rfl

theorem State.Settled.step (hs : s.step c = some next) : next.Settled := by
  obtain ⟨layers, pending⟩ := s
  cases layers using byPlace with
  | code layers hcode =>
    rw [step_of_isCode hcode] at hs
    exact settled_stepCode hs
  | double outer =>
    obtain rfl := Option.some.inj hs
    unfold stepQuoted
    split_ifs <;> simp [State.Settled, isCode, Layer.isCode]
  | single outer =>
    obtain rfl := Option.some.inj hs
    unfold stepQuoted
    split_ifs <;> simp [State.Settled, isCode, Layer.isCode]
  | literal outer =>
    obtain rfl := Option.some.inj hs
    unfold stepLiteral
    split_ifs <;> simp [State.Settled, isCode, Layer.isCode]

theorem State.Settled.run (h : s.Settled) (hrun : s.run t = some next) : next.Settled := by
  induction t generalizing s with
  | nil =>
    cases hrun
    exact h
  | cons c t ih =>
    rw [State.run_cons] at hrun
    obtain ⟨middle, hstep, hrun⟩ := Option.bind_eq_some_iff.1 hrun
    exact ih (.step hstep) hrun

/-- White space that ends in code starts there. -/
theorem eq_of_step_white (hc : isWhite c) (hs : s.Settled) (hlayers : isCode layers)
    (h : s.step c = some ⟨layers, .none⟩) : s = ⟨layers, .none⟩ := by
  have hne : ∀ d, isWhite d = false → c ≠ d := by
    rintro d hd rfl
    exact absurd (hc.symm.trans hd) Bool.noConfusion
  have hback := hne '\\' (by decide)
  obtain ⟨open?, pending⟩ := s
  cases open? using byPlace with
  | code open? hcode =>
    rw [step_of_isCode hcode, Neutral.stepCode_of_isPlain (isPlain_of_isWhite hc)] at h
    have hpending : pending = .none := hs hcode
    cases h
    rw [hpending]
  | double outer =>
    have hquote := hne '"' (by decide)
    simp only [State.step, stepQuoted, hback, hquote, if_false, Option.some.injEq] at h
    split at h <;> cases h <;> cases hlayers
  | single outer =>
    have hquote := hne '\'' (by decide)
    simp only [State.step, stepQuoted, hback, hquote, if_false, Option.some.injEq] at h
    split at h <;> cases h <;> cases hlayers
  | literal outer =>
    have hquote := hne '`' (by decide)
    have hcurly := hne '{' (by decide)
    have hdollar := hne '$' (by decide)
    simp only [State.step, stepLiteral, hback, hquote, hcurly, hdollar, and_false, if_false,
      Option.some.injEq] at h
    split at h <;> cases h <;> cases hlayers

theorem eq_of_run_white (hwhite : white.all isWhite) (hs : s.Settled) (hlayers : isCode layers)
    (h : s.run white = some ⟨layers, .none⟩) : s = ⟨layers, .none⟩ := by
  induction white generalizing s with
  | nil => exact Option.some.inj h
  | cons c white ih =>
    rw [List.all_cons, Bool.and_eq_true] at hwhite
    rw [State.run_cons] at h
    obtain ⟨next, hstep, hrun⟩ := Option.bind_eq_some_iff.1 h
    obtain rfl := ih hwhite.2 (.step hstep) hrun
    exact eq_of_step_white hwhite.1 hs hlayers hstep

theorem exists_trim (t : Text) : ∃ first last, t = first ++ trim t ++ last ∧
    first.all isWhite ∧ last.all isWhite := by
  refine ⟨t.takeWhile isWhite, ((trimStart t).reverse.takeWhile isWhite).reverse, ?_,
    List.all_takeWhile, ?_⟩
  · have hend : trimStart t = trim t ++ ((trimStart t).reverse.takeWhile isWhite).reverse := by
      rw [trim, trimEnd, ← List.reverse_append, List.takeWhile_append_dropWhile,
        List.reverse_reverse]
    rw [List.append_assoc, ← hend, trimStart, List.takeWhile_append_dropWhile]
  · rw [List.all_reverse]
    exact List.all_takeWhile

/-- The white space around a text does not matter where code starts and ends. -/
theorem run_trim {outer : List Layer} (houter : isCode outer) (hlayers : isCode layers)
    (h : State.run ⟨outer, .none⟩ t = some ⟨layers, .none⟩) :
    State.run ⟨outer, .none⟩ (trim t) = some ⟨layers, .none⟩ := by
  obtain ⟨first, last, ht, hfirst, hlast⟩ := exists_trim t
  rw [ht, List.append_assoc, State.run_append, neutral_white hfirst outer houter, Option.bind_some,
    State.run_append] at h
  obtain ⟨middle, hmiddle, hrun⟩ := Option.bind_eq_some_iff.1 h
  have hsettled : State.Settled ⟨outer, .none⟩ := fun _ => rfl
  rw [hmiddle, eq_of_run_white hlast (hsettled.run hmiddle) hlayers hrun]

theorem IsBalanced.trim (h : IsBalanced t) : IsBalanced (trim t) :=
  run_trim rfl rfl h

/-- A bracket that closes the last layer closes its match. -/
theorem eq_of_step_round (hs : s.Settled) (h : s.step ')' = some ⟨[], .none⟩) :
    s = ⟨[.round], .none⟩ := by
  obtain ⟨open?, pending⟩ := s
  cases open? with
  | nil => cases h
  | cons layer outer =>
    cases layer with
    | round =>
      have hpending : pending = .none := hs rfl
      cases h
      rw [hpending]
    | square => cases h
    | curly => cases h
    | hole => cases h
    | double => exact absurd h (by cases pending <;> exact nofun)
    | single => exact absurd h (by cases pending <;> exact nofun)
    | literal => exact absurd h (by cases pending <;> exact nofun)

/-- Nor does the white space inside of brackets around a text. -/
theorem IsBalanced.trim_round (h : IsBalanced ('(' :: (t ++ [')']))) :
    IsBalanced ('(' :: (Text.trim t ++ [')'])) := by
  have hopen : ∀ t : Text, State.start.run ('(' :: (t ++ [')'])) =
      (State.run ⟨[.round], .none⟩ t).bind fun s => s.run [')'] := by
    intro t
    rw [State.run_cons, ← State.run_append]
    rfl
  rw [IsBalanced, hopen] at h ⊢
  obtain ⟨middle, hmiddle, hrun⟩ := Option.bind_eq_some_iff.1 h
  have hsettled : State.Settled ⟨[.round], .none⟩ := fun _ => rfl
  have hlast : middle.step ')' = some ⟨[], .none⟩ := by
    rw [State.run_cons] at hrun
    obtain ⟨last, hlast, hnil⟩ := Option.bind_eq_some_iff.1 hrun
    cases hnil
    exact hlast
  obtain rfl := eq_of_step_round (hsettled.run hmiddle) hlast
  rw [run_trim rfl rfl hmiddle]
  rfl

end White

end ModuleServer.Script
