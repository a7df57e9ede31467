import ModuleServer.Proofs.Expression.Shape
import ModuleServer.Render.Listener

/-!
# Expressions of listeners

A listener stands as it is written if its expression is taken for a path or a function, and is put
into a function that evaluates it otherwise. So a call that is written in a listener is evaluated
along with the props exactly where the expression is misread.

* `react_render`: what is taken for a path or a function, what the listener becomes, and that no
  call is evaluated along with it, if the expression is written so that it is not misread.
-/

namespace ModuleServer.Render

open Text
open Expression (Gap Code isMemberPath)

/-- What a listener becomes, whatever its expression is taken for. -/
theorem react_of_visible (locals : List Text) {exp t : Text} (htrim : trim exp = t) (hne : t ≠ []) :
    (react locals (some exp)).map Reaction.print =
      if isMemberPath t || Expression.isFunction t then inContext locals t
      else (inContext ("$event".toList :: locals) t).map fun code =>
        "$event => (".toList ++ code ++ [')'] := by
  obtain ⟨c, t, rfl⟩ := List.exists_cons_of_ne_nil hne
  rw [react, Option.map_some, htrim]
  dsimp only
  split
  · cases inContext locals (c :: t) <;> rfl
  · cases inContext ("$event".toList :: locals) (c :: t) <;> rfl

/-- The expression of a listener is taken for a path exactly if it is a name with members, with no
white space between them, and for a function exactly if its first token is taken for the start of
one. Then it is the listener as it stands, and otherwise it is put into a function. An expression in
which nothing is misread is taken for what it is, and what stands as it is calls nothing at once. -/
theorem react_render (locals : List Text) (first last : Gap) {e : Code} (hproper : e.isProper)
    (hround : (e.lead .none).isRoundFree) :
    isMemberPath e.render = e.seemsPath ∧ Expression.isFunction e.render = e.seemsFunction ∧
      (react locals (some (first.text ++ e.render ++ last.text))).map Reaction.print =
        (if e.seemsPath || e.seemsFunction then inContext locals e.render
        else (inContext ("$event".toList :: locals) e.render).map fun code =>
          "$event => (".toList ++ code ++ [')']) ∧
      (e.hasPlainPath → e.hasPlainLead → e.seemsPath = e.isPath ∧ e.seemsFunction = e.isFunction ∧
        (e.seemsPath || e.seemsFunction → e.callsAtOnce = false)) := by
  have hpath := Code.isMemberPath_render hproper
  have hfunction := Code.isFunction_render hproper hround
  refine ⟨hpath, hfunction, ?_, ?_⟩
  · rw [react_of_visible locals (e.trim_render first last)
      (Expression.ne_nil_of_startsOperand e.render_startsOperand), hpath, hfunction]
  · intro hplain hlead
    have hseemsPath := e.seemsPath_eq_isPath hplain
    have hseemsFunction := Code.seemsFunction_eq_isFunction hlead
    refine ⟨hseemsPath, hseemsFunction, fun h => ?_⟩
    rw [hseemsPath, hseemsFunction, Bool.or_eq_true] at h
    rcases h with h | h
    · exact e.not_callsAtOnce_of_isPath h
    · exact e.not_callsAtOnce_of_isFunction h

/-- A call of what stands in brackets, with a function and a string that holds a bracket. -/
def chosenCall : Code :=
  let event : Expression.Name := .mk "event".toList
  let choice := Code.between (.name (.mk "select".toList)) .space (.mk "||".toList) .space
    (.name (.mk "submit".toList))
  let body := Code.call (.name (.mk "log".toList)) .none (.last .none .none (.name event) .none)
  .call (.group .none choice .none) .none <|
    .more .none .none (.arrow none (.lone event) .space .space body) .none <|
      .last .space .none (.string (.mk '"' [.plain ')'])) .none

theorem react_render_chosenCall :
    chosenCall.isProper ∧ (chosenCall.lead .none).isRoundFree ∧
      chosenCall.render = "(select || submit)(event => log(event), \")\")".toList ∧
      (react [] (some " (select || submit)(event => log(event), \")\")".toList)).map Reaction.print =
        .ok ("$event => ((_ctx.select || _ctx.submit)" ++
          "(event => _ctx.log(event), \")\"))").toList ∧
      chosenCall.seemsPath = chosenCall.isPath ∧
        chosenCall.seemsFunction = chosenCall.isFunction := by
  have hproper : chosenCall.isProper := by decide +kernel
  have hround : (chosenCall.lead .none).isRoundFree := by decide +kernel
  obtain ⟨-, -, hreact, hplain⟩ := react_render [] .space .none hproper hround
  obtain ⟨hpath, hfunction, -⟩ := hplain (by decide +kernel) (by decide +kernel)
  refine ⟨hproper, hround, by decide +kernel, ?_, hpath, hfunction⟩
  have htext : Gap.space.text ++ chosenCall.render ++ Gap.none.text =
      " (select || submit)(event => log(event), \")\")".toList := by decide +kernel
  rw [htext] at hreact
  exact hreact.trans (by decide +kernel)

/-- The name of a function that starts with the word for one makes its call a listener that is
evaluated along with the props. -/
example : (react [] (some "functional(1)".toList)).map Reaction.print =
    .ok "_ctx.functional(1)".toList := by
  decide +kernel

end ModuleServer.Render
