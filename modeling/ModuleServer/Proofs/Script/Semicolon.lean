import ModuleServer.Proofs.Script.Balance
import ModuleServer.Proofs.Text.Cut

/-!
# Semicolons in brackets

Statements are parted by semicolons, and round brackets hold none: a semicolon whose innermost open
bracket is a round one is stray, outside of strings and template literals.

* `State.strays` looks for one by the scan that tells what is open. `Quiet` code has none wherever
  it stands, a quoted text among it (`Quiet.quote`); in round brackets between quiet code there are
  those of what stands in the brackets (`strays_round`).
* `strays_statements`: balanced expressions with semicolons between them have a stray one exactly
  where the innermost open bracket is a round one.
-/

namespace ModuleServer.Script

open Text

/-- Whether a text has a stray semicolon, after what has been scanned. Nothing is looked for behind
a bracket that closes what it does not match. -/
def State.strays (s : State) : Text → Bool
  | [] => false
  | c :: t =>
    (c = ';' && s.layers.head? = some .round) || (s.step c).any fun next => next.strays t

/-- Whether code has a stray semicolon. -/
def hasStray (t : Text) : Bool :=
  State.start.strays t

section Strays

variable {t u : Text} {layers : List Layer}

theorem strays_append (s : State) (t u : Text) :
    s.strays (t ++ u) = (s.strays t || (s.run t).any fun next => next.strays u) := by
  induction t generalizing s with
  | nil => rfl
  | cons c t ih =>
    rw [List.cons_append, State.strays, State.strays, State.run_cons, Bool.or_assoc]
    congr 1
    cases s.step c with
    | none => rfl
    | some next => exact ih next

theorem strays_of_not_mem (h : ';' ∉ t) (s : State) : s.strays t = false := by
  induction t generalizing s with
  | nil => rfl
  | cons c t ih =>
    obtain ⟨hc, ht⟩ := not_or.1 (mt List.mem_cons.2 h)
    rw [State.strays, decide_eq_false (Ne.symm hc)]
    cases s.step c with
    | none => rfl
    | some next => exact ih ht next

/-- Behind neutral code without semicolons the search goes on as before it. -/
theorem strays_behind (ht : Neutral t) (hsemicolon : ';' ∉ t) (hlayers : isCode layers) (u : Text) :
    State.strays ⟨layers, .none⟩ (t ++ u) = State.strays ⟨layers, .none⟩ u := by
  rw [strays_append, strays_of_not_mem hsemicolon, ht layers hlayers]
  rfl

/-- So it does before a text without semicolons. -/
theorem strays_before (hu : ';' ∉ u) (s : State) : s.strays (t ++ u) = s.strays t := by
  rw [strays_append]
  cases s.run t with
  | none => exact Bool.or_false _
  | some next => rw [Option.any_some, strays_of_not_mem hu, Bool.or_false]

theorem semicolon_not_mem_white {white : Text} (h : white.all isWhite) : ';' ∉ white :=
  fun hmem => absurd (List.all_eq_true.1 h _ hmem) (by decide)

/-- White space around a text does not matter. -/
theorem strays_trim (t : Text) (hlayers : isCode layers) :
    State.strays ⟨layers, .none⟩ (trim t) = State.strays ⟨layers, .none⟩ t := by
  obtain ⟨first, last, ht, hfirst, hlast⟩ := exists_trim t
  have hwhole : State.strays ⟨layers, .none⟩ t =
      State.strays ⟨layers, .none⟩ (first ++ (trim t ++ last)) := by
    rw [← List.append_assoc, ← ht]
  rw [hwhole, strays_behind (neutral_white hfirst) (semicolon_not_mem_white hfirst) hlayers,
    strays_before (semicolon_not_mem_white hlast)]

end Strays

/-! ## Code without stray semicolons -/

/-- Neutral code that has no stray semicolon, whatever is open around it. -/
structure Quiet (t : Text) : Prop where
  neutral : Neutral t
  strays : ∀ layers, isCode layers → State.strays ⟨layers, .none⟩ t = false

namespace Quiet

variable {t u : Text} {ts : List Text}

theorem of_not_mem (h : Neutral t) (hsemicolon : ';' ∉ t) : Quiet t :=
  ⟨h, fun _ _ => strays_of_not_mem hsemicolon _⟩

theorem append (ht : Quiet t) (hu : Quiet u) : Quiet (t ++ u) := by
  refine ⟨ht.neutral.append hu.neutral, fun layers hlayers => ?_⟩
  rw [strays_append, ht.strays layers hlayers, ht.neutral layers hlayers]
  exact hu.strays layers hlayers

theorem joined {separator : Text} (hseparator : Quiet separator) (h : ∀ t ∈ ts, Quiet t) :
    Quiet (joined separator ts) := by
  induction ts with
  | nil => exact of_not_mem .nil List.not_mem_nil
  | cons t ts ih =>
    obtain ⟨ht, hts⟩ := List.forall_mem_cons.1 h
    cases ts with
    | nil => exact ht
    | cons u ts => exact (ht.append hseparator).append (ih hts)

theorem square (h : Quiet t) : Quiet ('[' :: (t ++ [']'])) := by
  refine ⟨h.neutral.square, fun layers hlayers => ?_⟩
  rw [State.strays, step_of_isCode hlayers]
  exact (strays_before (by decide) _).trans (h.strays (.square :: layers) rfl)

/-- A quoted text has no stray semicolon, whatever it holds. -/
theorem quote (t : Text) : Quiet (quote t) := by
  refine ⟨neutral_quote t, fun layers hlayers => ?_⟩
  have hinside : ∀ t : Text,
      State.strays ⟨.double :: layers, .none⟩ (t.flatMap escape ++ ['"']) = false := by
    intro t
    induction t with
    | nil => rfl
    | cons c t ih =>
      have hescape : State.strays ⟨.double :: layers, .none⟩ (escape c) = false := by
        unfold escape
        split_ifs with hquote hback <;> try rfl
        simp [State.strays, State.step, stepQuoted, hquote, hback]
      rw [List.flatMap_cons, List.append_assoc, strays_append, hescape, run_escape]
      exact ih
  rw [Script.quote, State.strays, step_of_isCode hlayers]
  exact hinside t

end Quiet

section Round

variable {front t behind : Text} {layers : List Layer}

/-- What stands in round brackets between quiet code has the stray semicolons that it has there. -/
theorem strays_round (hfront : Quiet front) (ht : Neutral t) (hbehind : Quiet behind)
    (hlayers : isCode layers) :
    State.strays ⟨layers, .none⟩ (front ++ '(' :: (t ++ behind ++ [')'])) =
      State.strays ⟨.round :: layers, .none⟩ t := by
  have hinside : isCode (.round :: layers) := rfl
  rw [strays_append, hfront.strays layers hlayers, hfront.neutral layers hlayers, Option.any_some,
    State.strays, step_of_isCode hlayers]
  show State.strays ⟨.round :: layers, .none⟩ (t ++ behind ++ [')']) = _
  rw [strays_before (by decide), strays_append, ht _ hinside, Option.any_some,
    hbehind.strays _ hinside, Bool.or_false]

end Round

/-! ## Statements -/

/-- Expressions as statements: with semicolons between them, and one behind the last if it is closed
as well. -/
def statements (exps : List Text) (closed : Bool) : Text :=
  joined [';', ' '] exps ++ if closed then [';'] else []

section Statements

variable {exps : List Text} {layers : List Layer}

theorem neutral_semicolon : Neutral [';', ' '] :=
  .plain (by decide)

theorem balanced_statements (h : ∀ t ∈ exps, IsBalanced t) (closed : Bool) :
    IsBalanced (statements exps closed) := by
  refine (Neutral.append (.joined neutral_semicolon fun t ht => (h t ht).neutral) ?_).balanced
  cases closed with
  | false => exact .nil
  | true => exact .plain (by decide)

/-- A word without semicolons and spaces occurs in statements only if it occurs in one of them. -/
theorem has_statements {word : Text} (hne : word ≠ []) (hsemicolon : ';' ∉ word)
    (hspace : ' ' ∉ word) (h : ∀ t ∈ exps, has word t = false) (closed : Bool) :
    has word (statements exps closed) = false := by
  have hnil : has word [] = false := by
    cases word with
    | nil => exact absurd rfl hne
    | cons c word => exact has_eq_false List.not_mem_nil
  have hjoined : has word (joined [';', ' '] exps) = false := by
    induction exps with
    | nil => exact hnil
    | cons t exps ih =>
      obtain ⟨ht, hexps⟩ := List.forall_mem_cons.1 h
      cases exps with
      | nil => exact ht
      | cons u exps =>
        rw [joined, List.append_assoc]
        exact has_append_cons hne hsemicolon ht (has_append_cons hne hspace hnil (ih hexps))
  rw [statements]
  cases closed with
  | false => rwa [if_neg Bool.false_ne_true, List.append_nil]
  | true =>
    rw [if_pos rfl]
    exact has_append_cons hne hsemicolon hjoined hnil

theorem strays_semicolon (hlayers : isCode layers) {t : Text} (h : ';' ∉ t) :
    State.strays ⟨layers, .none⟩ (';' :: t) = decide (layers.head? = some .round) := by
  rw [State.strays, step_of_isCode hlayers, Neutral.stepCode_of_isPlain (by decide),
    Option.any_some, strays_of_not_mem h, Bool.or_false]
  rfl

theorem strays_joined (hbalanced : ∀ t ∈ exps, IsBalanced t) (hsemicolon : ∀ t ∈ exps, ';' ∉ t)
    (hlayers : isCode layers) :
    State.strays ⟨layers, .none⟩ (joined [';', ' '] exps) =
      (layers.head? = some .round && decide (1 < exps.length)) := by
  induction exps with
  | nil => exact (Bool.and_false _).symm
  | cons t exps ih =>
    obtain ⟨ht, hbalanced⟩ := List.forall_mem_cons.1 hbalanced
    obtain ⟨htext, hsemicolon⟩ := List.forall_mem_cons.1 hsemicolon
    cases exps with
    | nil => exact (strays_of_not_mem htext _).trans (Bool.and_false _).symm
    | cons u exps =>
      rw [joined, List.append_assoc, strays_behind ht.neutral htext hlayers, strays_append,
        strays_semicolon hlayers (by decide), neutral_semicolon layers hlayers, Option.any_some,
        ih hbalanced hsemicolon, decide_eq_true (show 1 < (t :: u :: exps).length by simp)]
      cases decide (layers.head? = some .round) <;> rfl

/-- The semicolons of statements are stray exactly right inside of round brackets. -/
theorem strays_statements (hbalanced : ∀ t ∈ exps, IsBalanced t)
    (hsemicolon : ∀ t ∈ exps, ';' ∉ t) (hlayers : isCode layers) (closed : Bool) :
    State.strays ⟨layers, .none⟩ (statements exps closed) =
      (layers.head? = some .round && (decide (1 < exps.length) || closed)) := by
  have hneutral : Neutral (joined [';', ' '] exps) :=
    .joined neutral_semicolon fun t ht => (hbalanced t ht).neutral
  rw [statements, strays_append, strays_joined hbalanced hsemicolon hlayers,
    hneutral layers hlayers, Option.any_some]
  cases closed with
  | false => rw [if_neg Bool.false_ne_true, State.strays, Bool.or_false, Bool.or_false]
  | true =>
    rw [if_pos rfl, strays_semicolon hlayers List.not_mem_nil, Bool.or_true, Bool.and_true]
    cases decide (layers.head? = some .round) with
    | false => rfl
    | true => exact Bool.or_true _

end Statements

end ModuleServer.Script
