import ModuleServer.Text.Basic

/-!
# Positions

Spans of bytes, and the line and column of a byte offset. An offset between two characters has a
place; one inside a character has none, and `lineColumn?` says so.

* `splitAtByte?_eq_some_iff`: an offset cuts the text exactly at the size of a part before it.
-/

namespace ModuleServer

/-- A range of bytes, from the first to just before `stop`. -/
structure Span where
  /-- Offset of the first byte. -/
  start : Nat
  /-- Offset just behind the last byte. -/
  stop : Nat
deriving DecidableEq, Repr, Inhabited

namespace Span

/-- Number of bytes. -/
def size (s : Span) : Nat :=
  s.stop - s.start

/-- Whether the span holds no byte. -/
def isEmpty (s : Span) : Bool :=
  s.start = s.stop

/-- The text `start..stop`, as it closes an error message. -/
def render (s : Span) : Text :=
  Text.decimal s.start ++ "..".toList ++ Text.decimal s.stop

end Span

namespace Text

/-- The text before and after a byte offset; nothing if the offset falls inside a character or
past the end. -/
def splitAtByte? : Nat → Text → Option (Text × Text)
  | 0, t => some ([], t)
  | _ + 1, [] => none
  | n + 1, c :: t =>
    if c.utf8Size ≤ n + 1 then
      (splitAtByte? (n + 1 - c.utf8Size) t).map fun (before, rest) => (c :: before, rest)
    else none

theorem splitAtByte?_eq_some_iff {n : Nat} {t a b : Text} :
    splitAtByte? n t = some (a, b) ↔ t = a ++ b ∧ byteSize a = n := by
  induction t generalizing n a with
  | nil =>
    cases n with
    | zero =>
      simp only [splitAtByte?, Option.some.injEq, Prod.mk.injEq]
      constructor
      · rintro ⟨rfl, rfl⟩
        simp
      · rintro ⟨h, -⟩
        have := List.append_eq_nil_iff.1 h.symm
        simp [this.1, this.2]
    | succ n =>
      simp only [splitAtByte?, reduceCtorEq, false_iff, not_and]
      intro h
      have := List.append_eq_nil_iff.1 h.symm
      simp [this.1]
  | cons c t ih =>
    have hc : 0 < c.utf8Size := Char.utf8Size_pos c
    cases n with
    | zero =>
      simp only [splitAtByte?, Option.some.injEq, Prod.mk.injEq]
      constructor
      · rintro ⟨rfl, rfl⟩
        simp
      · rintro ⟨h, h0⟩
        cases a with
        | nil => simpa using h
        | cons x a =>
          have := Char.utf8Size_pos x
          simp at h0
          omega
    | succ n =>
      simp only [splitAtByte?]
      split
      · rename_i hle
        constructor
        · intro h
          obtain ⟨⟨x, y⟩, hxy, he⟩ := Option.map_eq_some_iff.1 h
          obtain ⟨rfl, rfl⟩ := Prod.mk.inj he
          obtain ⟨rfl, hn⟩ := ih.1 hxy
          refine ⟨rfl, ?_⟩
          simp only [byteSize_cons, hn]
          omega
        · rintro ⟨h, hn⟩
          cases a with
          | nil => simp at hn
          | cons x a =>
            obtain ⟨rfl, rfl⟩ := List.cons.inj h
            simp only [byteSize_cons] at hn
            have : splitAtByte? (n + 1 - c.utf8Size) (a ++ b) = some (a, b) :=
              ih.2 ⟨rfl, by omega⟩
            simp [this]
      · rename_i hle
        simp only [reduceCtorEq, false_iff, not_and]
        intro h
        cases a with
        | nil => simp
        | cons x a =>
          obtain ⟨rfl, rfl⟩ := List.cons.inj h
          simp only [byteSize_cons]
          omega

/-- Line and column of the end of a text, both counted from one, the column in bytes. -/
def endPosition (t : Text) : Nat × Nat :=
  (t.count '\n' + 1, byteSize (t.reverse.takeWhile (· ≠ '\n')) + 1)

/-- Line and column of a byte offset, both counted from one, the column in bytes. An offset past
the end is the end; one inside a character has no place. -/
def lineColumn? (source : Text) (offset : Nat) : Option (Nat × Nat) :=
  (splitAtByte? (min offset (byteSize source)) source).map fun (before, _) => endPosition before

end Text

end ModuleServer
