import ModuleServer.Expression.Binding
import ModuleServer.Proofs.Expression.Write
import ModuleServer.Proofs.Text.Cut

/-!
# Names that a text binds

* `bindingNames_name`, `bindingNames_gap`, `bindingNames_skip`: binding patterns are read token by
  token.
* `parameterNames?_eq_nil`: an expression without an arrow, and without the word for a function or
  without an opening bracket, binds no names.
-/

namespace ModuleServer.Expression

open Text

/-! ## Names of patterns -/

theorem bindingNames_skip {c : Char} (h : isNameStart c = false) (hdefault : c ≠ '=') (t : Text) :
    bindingNames (c :: t) = bindingNames t := by
  rw [bindingNames, if_neg (by simp [h]), if_neg hdefault]

theorem bindingNames_gap (gap : Gap) (rest : Text) :
    bindingNames (gap.text ++ rest) = bindingNames rest := by
  obtain ⟨t, hwhite⟩ := gap
  dsimp only
  induction t with
  | nil => rfl
  | cons c t ih =>
    simp only [List.all_cons, Bool.and_eq_true] at hwhite
    have hflat := isFlat_of_white hwhite.1
    have hname : isNameStart c = false := by
      refine Bool.eq_false_iff.2 fun h => ?_
      simp [isFlat, isCopied, h] at hflat
    rw [List.cons_append, bindingNames_skip hname _, ih hwhite.2]
    rintro rfl
    exact absurd hwhite.1 (by decide)

theorem bindingNames_name (n : Name) {rest : Text} (hrest : headIs isNameChar rest = false) :
    bindingNames (n.text ++ rest) =
      if firstVisible? rest = some ':' || isKeyword n.text then bindingNames rest
      else n.text :: bindingNames rest := by
  obtain ⟨t, hvalid⟩ := n
  cases t with
  | nil => simp [isName] at hvalid
  | cons c t =>
    simp only [isName, Bool.and_eq_true] at hvalid
    rw [List.cons_append, bindingNames, if_pos hvalid.1, takeWhile_run hvalid.2 hrest,
      dropWhile_run hvalid.2 hrest]

/-! ## Expressions without functions -/

theorem arrowParameters?_eq_nil {t : Text} (h : has ['=', '>'] t = false) :
    ∀ seen, arrowParameters? seen t = some [] := by
  induction t with
  | nil => exact fun _ => rfl
  | cons c t ih =>
    intro seen
    obtain ⟨hafter, ht⟩ := has_of_cons h
    rw [arrowParameters?, ih ht]
    rintro r rfl rfl
    simp [after?] at hafter

theorem functionParameters_of_no_word {t : Text} (h : has "function".toList t = false) :
    functionParameters t = [] := by
  rw [functionParameters]
  split
  · rfl
  · rename_i rest hcut
    exact absurd (hcut.symm.trans (cut?_eq_none h)) (Option.some_ne_none _)

theorem functionParameters_of_no_bracket {t : Text} (h : '(' ∉ t) :
    functionParameters t = [] := by
  fun_induction functionParameters t with
  | case1 => rfl
  | case2 t before rest hcut here ih =>
    have hrest : '(' ∉ rest := fun hmem => h (eq_of_cut? hcut ▸ by simp [hmem])
    simp [here, cut?_eq_none (has_eq_false hrest), ih hrest]

/-- An expression without functions binds no names. -/
theorem parameterNames?_eq_nil {t : Text} (harrow : has ['=', '>'] t = false)
    (hfunction : has "function".toList t = false ∨ '(' ∉ t) : parameterNames? t = some [] := by
  have hwords : functionParameters t = [] := by
    rcases hfunction with h | h
    · exact functionParameters_of_no_word h
    · exact functionParameters_of_no_bracket h
  rw [parameterNames?, arrowParameters?_eq_nil harrow, hwords]
  rfl

end ModuleServer.Expression
