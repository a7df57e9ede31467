import ModuleServer.Proofs.Expression.Write

/-!
# Braces in holes

A hole of a template literal ends at the brace that closes it, found by counting braces alone. In
the text of an expression tree the braces are balanced, as long as no string and no template text in
it has one (`Expr.balanced_render`), so a hole is read to its end (`readHole_render`).
-/

namespace ModuleServer.Expression

open Text

/-- Counting braces goes through a text and comes out at the depth it came in with. -/
def Balanced (t : Text) : Prop :=
  ∀ depth rest, readHole depth (t ++ rest) =
    (t ++ (readHole depth rest).1, (readHole depth rest).2)

namespace Balanced

variable {t u : Text}

theorem append (ht : Balanced t) (hu : Balanced u) : Balanced (t ++ u) := by
  intro depth rest
  rw [List.append_assoc, ht, hu, List.append_assoc]

theorem of_no_brace (h : ∀ c ∈ t, c ≠ '{' ∧ c ≠ '}') : Balanced t := by
  intro depth rest
  induction t with
  | nil => rfl
  | cons c t ih =>
    obtain ⟨hopen, hclose⟩ := h c List.mem_cons_self
    have ht := ih fun d hd => h d (List.mem_cons_of_mem c hd)
    simp only [List.cons_append, readHole, hclose, hopen, if_false, ht]

theorem of_class {p : Char → Bool} (hopen : p '{' = false) (hclose : p '}' = false)
    (h : t.all p) : Balanced t :=
  of_no_brace fun c hc => ⟨ne_of_mem_run h hopen c hc, ne_of_mem_run h hclose c hc⟩

theorem enclosed (h : Balanced t) : Balanced ('{' :: (t ++ ['}'])) := by
  intro depth rest
  have hclose : readHole (depth + 1) ('}' :: rest) =
      ('}' :: (readHole depth rest).1, (readHole depth rest).2) := by
    simp only [readHole, if_true]
  have hopen : ('{' : Char) ≠ '}' := by decide
  simp only [List.cons_append, readHole, hopen, if_false, if_true, List.append_assoc,
    List.nil_append]
  rw [h, hclose]

end Balanced

/-! ## Tokens -/

theorem Gap.balanced (gap : Gap) : Balanced gap.text :=
  .of_class (by decide) (by decide) gap.white

theorem Name.balanced (n : Name) : Balanced n.text :=
  .of_class (by decide) (by decide) (all_isNameChar n)

/-- A number is made of what goes on from digits, and maybe a sign. -/
theorem Number.all_chars (n : Number) :
    n.text.all fun c => isNumberChar c || c = '+' || c = '-' := by
  have hwrites := n.digits
  have hscaled := n.scaled
  rw [List.all_append, Bool.and_eq_true] at hwrites
  have hdigits : ∀ {t : Text}, t.all Char.isDigit →
      t.all (fun c => isNumberChar c || c = '+' || c = '-') := by
    intro t ht
    have := all_isNumberChar ht
    rw [List.all_eq_true] at this ⊢
    intro c hc
    simp [this c hc]
  unfold Number.text Number.exponentText
  simp only [List.all_append, hdigits hwrites.1, Bool.true_and, Bool.and_eq_true]
  refine ⟨?_, ?_⟩
  · cases hf : n.fraction with
    | none => rfl
    | some f =>
      rw [hf] at hwrites
      simpa [isNumberChar] using hdigits hwrites.2
  · rcases he : n.exponent with _ | ⟨mark, sign, power⟩
    · rfl
    · simp only [he, Option.all_some, Bool.and_eq_true, List.contains_iff_mem, List.mem_cons,
        List.not_mem_nil, or_false] at hscaled
      obtain ⟨⟨⟨hmark, hsign⟩, -⟩, hpower⟩ := hscaled
      have hmark : isNumberChar mark := by
        rcases hmark with rfl | rfl <;> decide
      simp only [List.all_cons, List.all_append, hdigits hpower, hmark, Bool.true_or, Bool.true_and,
        Bool.and_true]
      cases sign with
      | none => rfl
      | some sign =>
        simp only [Option.all_some, List.contains_iff_mem, List.mem_cons, List.not_mem_nil,
          or_false] at hsign
        rcases hsign with rfl | rfl <;> rfl

theorem Number.balanced (n : Number) : Balanced n.text :=
  .of_class (by decide) (by decide) n.all_chars

/-- In the text of glyphs stand their characters and backslashes. -/
theorem mem_glyphs {glyphs : List Glyph} {c : Char} (h : c ∈ glyphs.flatMap Glyph.text) :
    c = '\\' ∨ ∃ g ∈ glyphs, c = g.char := by
  obtain ⟨g, hg, hc⟩ := List.mem_flatMap.1 h
  cases g with
  | plain d => exact .inr ⟨_, hg, List.mem_singleton.1 hc⟩
  | escaped d =>
    simp only [Glyph.text, List.mem_cons, List.not_mem_nil, or_false] at hc
    exact hc.imp_right fun hc => ⟨_, hg, hc⟩

theorem balanced_glyphs {glyphs : List Glyph} (h : hasBrace glyphs = false) :
    Balanced (glyphs.flatMap Glyph.text) := by
  simp only [hasBrace, List.any_eq_false, Bool.or_eq_true, decide_eq_true_eq, not_or] at h
  refine .of_no_brace fun c hc => ?_
  rcases mem_glyphs hc with rfl | ⟨g, hg, rfl⟩
  · decide
  · exact h g hg

theorem Quoted.balanced {s : Quoted} (h : hasBrace s.glyphs = false) : Balanced s.text := by
  have hquote : Balanced [s.quote] := by
    refine .of_no_brace fun c hc => ?_
    rw [List.mem_singleton.1 hc]
    rcases s.isQuote with h | h <;> simp [h]
  exact hquote.append ((balanced_glyphs h).append hquote)

theorem Operator.balanced {marks words : List Text} (op : Operator marks words)
    (h : (marks ++ words).all fun t => t.all fun c => c ≠ '{' && c ≠ '}') : Balanced op.text := by
  refine .of_no_brace fun c hc => ?_
  simpa using List.all_eq_true.1 (List.all_eq_true.1 h op.text op.known) c hc

/-- One character that is no brace. -/
theorem balanced_mark {c : Char} (h : c ≠ '{' ∧ c ≠ '}') : Balanced [c] :=
  .of_no_brace fun d hd => by rwa [List.mem_singleton.1 hd]

theorem balanced_memberMark (optional : Bool) : Balanced (memberMark optional) := by
  have hdot := balanced_mark (c := '.') (by decide)
  cases optional with
  | false => exact hdot
  | true => exact (balanced_mark (c := '?') (by decide)).append hdot

theorem balanced_ellipsis : Balanced ellipsis := by
  have hdot := balanced_mark (c := '.') (by decide)
  exact hdot.append (hdot.append hdot)

/-! ## Trees -/

mutual

theorem Expr.balanced_render : ∀ e : Expr, e.isBraceFree → Balanced e.render
  | .name n, _ => n.balanced
  | .number n, _ => n.balanced
  | .string s, h => Quoted.balanced (by simpa [Expr.isBraceFree] using h)
  | .template text holes, h => by
    simp only [Expr.isBraceFree, Bool.and_eq_true, Bool.not_eq_true'] at h
    have htick := balanced_mark (c := '`') (by decide)
    exact htick.append (((balanced_glyphs h.1).append (holes.balanced_render h.2)).append htick)
  | .member base beforeDot optional behindDot n, h =>
    ((((base.balanced_render h).append beforeDot.balanced).append
      (balanced_memberMark optional)).append behindDot.balanced).append n.balanced
  | .index base beforeBracket first key last, h => by
    simp only [Expr.isBraceFree, Bool.and_eq_true] at h
    have hkey := (first.balanced.append (key.balanced_render h.2)).append last.balanced
    exact ((base.balanced_render h.1).append beforeBracket.balanced).append
      ((balanced_mark (c := '[') (by decide)).append
        (hkey.append (balanced_mark (by decide))))
  | .call function beforeBracket arguments, h => by
    simp only [Expr.isBraceFree, Bool.and_eq_true] at h
    exact ((function.balanced_render h.1).append beforeBracket.balanced).append
      ((balanced_mark (c := '(') (by decide)).append
        ((arguments.balanced_render h.2).append (balanced_mark (by decide))))
  | .group first inner last, h =>
    (balanced_mark (c := '(') (by decide)).append
      (((first.balanced.append (inner.balanced_render h)).append last.balanced).append
        (balanced_mark (by decide)))
  | .before op gap operand, h =>
    ((op.balanced (by decide)).append gap.balanced).append (operand.balanced_render h)
  | .behind operand gap op, h =>
    ((operand.balanced_render h).append gap.balanced).append (op.balanced (by decide))
  | .between left beforeOp op behindOp right, h => by
    simp only [Expr.isBraceFree, Bool.and_eq_true] at h
    exact ((((left.balanced_render h.1).append beforeOp.balanced).append
      (op.balanced (by decide))).append behindOp.balanced).append (right.balanced_render h.2)
  | .conditional test beforeMark behindMark yes beforeColon behindColon no, h => by
    simp only [Expr.isBraceFree, Bool.and_eq_true] at h
    have htest := ((test.balanced_render h.1.1).append beforeMark.balanced).append
      (balanced_mark (c := '?') (by decide))
    have hyes := (((htest.append behindMark.balanced).append (yes.balanced_render h.1.2)).append
      beforeColon.balanced).append (balanced_mark (c := ':') (by decide))
    exact (hyes.append behindColon.balanced).append (no.balanced_render h.2)
  | .array items, h =>
    (balanced_mark (c := '[') (by decide)).append
      ((items.balanced_render h).append (balanced_mark (by decide)))
  | .object entries, h => (entries.balanced_render h).enclosed

theorem Item.balanced_render : ∀ item : Item, item.isBraceFree → Balanced item.render
  | .value e, h => e.balanced_render h
  | .spread e, h => balanced_ellipsis.append (e.balanced_render h)

theorem Items.balanced_render : ∀ items : Items, items.isBraceFree → Balanced items.render
  | .none gap, _ => gap.balanced
  | .last first item last, h =>
    (first.balanced.append (item.balanced_render h)).append last.balanced
  | .more first item last others, h => by
    simp only [Items.isBraceFree, Bool.and_eq_true] at h
    have hitem := (first.balanced.append (item.balanced_render h.1)).append last.balanced
    exact (hitem.append (balanced_mark (c := ',') (by decide))).append (others.balanced_render h.2)

theorem Entry.balanced_render : ∀ entry : Entry, entry.isBraceFree → Balanced entry.render
  | .named key beforeColon behindColon value, h =>
    (((key.balanced.append beforeColon.balanced).append
      (balanced_mark (c := ':') (by decide))).append behindColon.balanced).append
        (value.balanced_render h)
  | .quoted key beforeColon behindColon value, h => by
    simp only [Entry.isBraceFree, Bool.and_eq_true, Bool.not_eq_true'] at h
    exact ((((Quoted.balanced h.1).append beforeColon.balanced).append
      (balanced_mark (c := ':') (by decide))).append behindColon.balanced).append
        (value.balanced_render h.2)
  | .shorthand n, _ => n.balanced
  | .spread e, h => balanced_ellipsis.append (e.balanced_render h)

theorem Entries.balanced_render : ∀ entries : Entries, entries.isBraceFree → Balanced entries.render
  | .none gap, _ => gap.balanced
  | .last first entry last, h =>
    (first.balanced.append (entry.balanced_render h)).append last.balanced
  | .more first entry last others, h => by
    simp only [Entries.isBraceFree, Bool.and_eq_true] at h
    have hentry := (first.balanced.append (entry.balanced_render h.1)).append last.balanced
    exact (hentry.append (balanced_mark (c := ',') (by decide))).append
      (others.balanced_render h.2)

theorem Holes.balanced_render : ∀ holes : Holes, holes.isBraceFree → Balanced holes.render
  | .none, _ => .of_no_brace (by simp [Holes.render])
  | .more first e last text others, h => by
    simp only [Holes.isBraceFree, Bool.and_eq_true, Bool.not_eq_true'] at h
    obtain ⟨⟨he, htext⟩, hothers⟩ := h
    have hinner := ((first.balanced.append (e.balanced_render he)).append last.balanced).enclosed
    have hhole := (balanced_mark (c := '$') (by decide)).append hinner
    simpa [Holes.render, Chunk.text] using
      (hhole.append (balanced_glyphs htext)).append (others.balanced_render hothers)

end

/-- A hole is read up to the brace that closes it. -/
theorem readHole_render {e : Expr} (h : e.isBraceFree) (first last : Gap) (rest : Text) :
    readHole 0 (first.text ++ e.render ++ last.text ++ '}' :: rest) =
      (first.text ++ e.render ++ last.text, '}' :: rest) := by
  have hinner := (first.balanced.append (e.balanced_render h)).append last.balanced
  rw [hinner]
  simp [readHole]

end ModuleServer.Expression
