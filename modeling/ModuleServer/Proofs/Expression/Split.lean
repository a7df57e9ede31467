import ModuleServer.Proofs.Expression.Place

/-!
# Expressions that are cut inside a character

The parameters before an arrow are looked for from the arrow backwards, and a lone parameter is
taken to start one byte behind the character that sets it off. So there is no answer exactly for the
expressions in which that character has more than one byte (`parameterNames?_eq_none_iff`).
-/

namespace ModuleServer.Expression

open Text

/-- Whether a text holds an arrow whose lone parameter is set off by a character of more than one
byte: the character `c`, a name, white space and the arrow. The name may be empty, and then `c` is
what stands before the white space. -/
def SplitsName (t : Text) : Prop :=
  ∃ seen c name gap behind, t = seen ++ c :: (name ++ (gap ++ '=' :: '>' :: behind)) ∧
    1 < c.utf8Size ∧ isNameChar c = false ∧ name.all isNameChar ∧ gap.all isWhite ∧
      (name = [] → isWhite c = false)

/-! ## One arrow -/

/-- The parameters before an arrow, if no brackets close there. -/
theorem parametersBefore?_lone {gap name before : Text} (hgap : gap.all isWhite)
    (hname : name.all isNameChar) (hbefore : headIs isNameChar before = false)
    (hwhite : name = [] → headIs isWhite before = false)
    (hbracket : headIs (· = ')') (name ++ before) = false) :
    parametersBefore? (gap ++ (name ++ before)) =
      match before with
      | c :: _ =>
        if c.utf8Size = 1 then some (if name.reverse.isEmpty then [] else [name.reverse]) else none
      | [] => some (if name.reverse.isEmpty then [] else [name.reverse]) := by
  have hstart : headIs isWhite (name ++ before) = false := by
    cases name with
    | nil => exact hwhite rfl
    | cons d name =>
      have hd : isNameChar d := List.all_eq_true.1 hname d List.mem_cons_self
      refine Bool.eq_false_iff.2 fun h => ?_
      exact absurd (hd.symm.trans (isNameChar_of_white h)) Bool.noConfusion
  rw [parametersBefore?, dropWhile_run hgap hstart]
  split
  · rename_i r hr
    rw [hr] at hbracket
    cases hbracket
  · rw [takeWhile_run hname hbefore, dropWhile_run hname hbefore]
    cases before <;> rfl

/-- The parameters before an arrow cannot be told if a lone one is set off by a character of more
than one byte. The text is given from its end on. -/
theorem parametersBefore?_eq_none_iff {t : Text} :
    parametersBefore? t = none ↔ ∃ gap name c seen, t = gap ++ (name ++ c :: seen) ∧
      1 < c.utf8Size ∧ isNameChar c = false ∧ name.all isNameChar ∧ gap.all isWhite ∧
        (name = [] → isWhite c = false) := by
  constructor
  · intro h
    -- the white space and the name before the arrow, as far as they go
    obtain ⟨gap, rest, rfl, hgap, hrest⟩ := exists_run isWhite t
    obtain ⟨name, before, rfl, hname, hbefore⟩ := exists_run isNameChar rest
    by_cases hbracket : headIs (· = ')') (name ++ before)
    · rw [parametersBefore?, dropWhile_run hgap hrest] at h
      rcases hall : name ++ before with _ | ⟨d, r⟩
      · rw [hall] at hbracket
        cases hbracket
      · rw [hall] at hbracket h
        obtain rfl : d = ')' := of_decide_eq_true hbracket
        dsimp only at h
        cases hgroup : closeGroup? ')' '(' 0 r with
        | none => simp [hgroup] at h
        | some found => simp [hgroup] at h
    · have hwhite : name = [] → headIs isWhite before = false := by
        rintro rfl
        exact hrest
      rw [parametersBefore?_lone hgap hname hbefore hwhite (Bool.eq_false_iff.2 hbracket)] at h
      cases before with
      | nil => cases h
      | cons c seen =>
        dsimp only at h
        split at h
        · cases h
        · rename_i hsize
          have hpos := Char.utf8Size_pos c
          exact ⟨gap, name, c, seen, rfl, by omega, hbefore, hname, hgap, hwhite⟩
  · rintro ⟨gap, name, c, seen, rfl, hsize, hc, hname, hgap, hwhite⟩
    have hbracket : headIs (· = ')') (name ++ c :: seen) = false := by
      refine Bool.eq_false_iff.2 fun h => ?_
      cases name with
      | nil =>
        obtain rfl : c = ')' := of_decide_eq_true h
        exact absurd hsize (by decide)
      | cons d name =>
        obtain rfl : d = ')' := of_decide_eq_true h
        have hd : isNameChar ')' := List.all_eq_true.1 hname _ List.mem_cons_self
        exact absurd hd (by decide)
    have hbefore : headIs isNameChar (c :: seen) = false := hc
    rw [parametersBefore?_lone hgap hname hbefore hwhite hbracket]
    exact if_neg (by omega)

/-! ## All arrows -/

/-- The parameters of all functions before arrows can be told unless those before one of the arrows
cannot. -/
theorem arrowParameters?_eq_none_iff {seen t : Text} :
    arrowParameters? seen t = none ↔ ∃ before behind, t = before ++ '=' :: '>' :: behind ∧
      parametersBefore? (before.reverse ++ seen) = none := by
  fun_induction arrowParameters? seen t with
  | case1 seen =>
    constructor
    · nofun
    · rintro ⟨before, behind, h, -⟩
      exact absurd h.symm (by simp)
  | case2 seen t here later hlater hhere ih =>
    constructor
    · nofun
    · rintro ⟨before, behind, h, hnone⟩
      rcases before with _ | ⟨c, _ | ⟨d, before⟩⟩
      · exact absurd (hhere.symm.trans hnone) (Option.some_ne_none _)
      · cases h
      · obtain ⟨rfl, rfl, rfl⟩ : c = '=' ∧ d = '>' ∧ t = before ++ '=' :: '>' :: behind := by
          simpa [eq_comm] using h
        have hnone' : parametersBefore? (before.reverse ++ '>' :: '=' :: seen) = none := by
          simpa using hnone
        exact absurd (hlater.symm.trans (ih.2 ⟨before, behind, rfl, hnone'⟩))
          (Option.some_ne_none _)
  | case3 seen t hnone ih =>
    refine iff_of_true rfl ?_
    cases hhere : parametersBefore? seen with
    | none => exact ⟨[], t, rfl, hhere⟩
    | some here =>
      cases hlater : arrowParameters? ('>' :: '=' :: seen) t with
      | some later => exact (hnone here later hhere hlater).elim
      | none =>
        obtain ⟨before, behind, rfl, hbefore⟩ := ih.1 hlater
        refine ⟨'=' :: '>' :: before, behind, rfl, ?_⟩
        simpa using hbefore
  | case4 seen c t hne ih =>
    rw [ih]
    constructor
    · rintro ⟨before, behind, rfl, hnone⟩
      refine ⟨c :: before, behind, rfl, ?_⟩
      simpa using hnone
    · rintro ⟨before, behind, h, hnone⟩
      cases before with
      | nil =>
        obtain ⟨rfl, rfl⟩ := List.cons.inj h
        exact (hne behind rfl rfl).elim
      | cons d before =>
        obtain ⟨rfl, rfl⟩ := List.cons.inj h
        refine ⟨before, behind, rfl, ?_⟩
        simpa using hnone

/-- The names that the functions of an expression bind can be told unless an arrow's lone parameter
is set off by a character of more than one byte. -/
theorem parameterNames?_eq_none_iff {t : Text} : parameterNames? t = none ↔ SplitsName t := by
  rw [parameterNames?, Option.map_eq_none_iff, arrowParameters?_eq_none_iff]
  constructor
  · rintro ⟨before, behind, rfl, hnone⟩
    rw [List.append_nil] at hnone
    obtain ⟨gap, name, c, seen, hbefore, hsize, hc, hname, hgap, hwhite⟩ :=
      parametersBefore?_eq_none_iff.1 hnone
    refine ⟨seen.reverse, c, name.reverse, gap.reverse, behind, ?_, hsize, hc, ?_, ?_, ?_⟩
    · rw [← List.reverse_reverse before, hbefore]
      simp
    · simpa using hname
    · simpa using hgap
    · exact fun h => hwhite (List.reverse_eq_nil_iff.1 h)
  · rintro ⟨seen, c, name, gap, behind, rfl, hsize, hc, hname, hgap, hwhite⟩
    refine ⟨seen ++ c :: (name ++ gap), behind, by simp, ?_⟩
    refine parametersBefore?_eq_none_iff.2
      ⟨gap.reverse, name.reverse, c, seen.reverse, by simp, hsize, hc, ?_, ?_, ?_⟩
    · simpa using hname
    · simpa using hgap
    · exact fun h => hwhite (List.reverse_eq_nil_iff.1 h)

end ModuleServer.Expression
