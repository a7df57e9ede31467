import ModuleServer.Text.Position
import Mathlib.Data.List.Induction

/-!
# Offsets between characters

An offset into a text counts bytes, so it can fall inside a character or behind the end. Those that
do not are the sizes of what can stand before the rest of the text (`IsOffset`); a place that a
reader finds is one, since a reader leaves the end of what it reads (`isOffset_of_suffix`). They are
the offsets that have a line and a column (`exists_lineColumn?`), which tell the offset
(`offsetOf_lineColumn`).

A span may hold a part of a text (`Span.Holds`), and spans may stand one behind another
(`Span.InOrder`).
-/

namespace ModuleServer

open Text

namespace Text

/-- Whether an offset lies between two characters of a text, or at one of its ends. -/
def IsOffset (t : Text) (n : Nat) : Prop :=
  ∃ before behind, t = before ++ behind ∧ byteSize before = n

variable {t rest : Text} {n : Nat}

/-- A reader that leaves `rest` stands between two characters. -/
theorem isOffset_of_suffix (h : rest <:+ t) : IsOffset t (byteSize t - byteSize rest) := by
  obtain ⟨before, rfl⟩ := h
  refine ⟨before, rest, rfl, ?_⟩
  rw [byteSize_append]
  omega

/-- An offset into a part of a text is one into the text, once what stands before is added. -/
theorem IsOffset.within (h : IsOffset t n) (before behind : Text) :
    IsOffset (before ++ t ++ behind) (byteSize before + n) := by
  obtain ⟨first, last, rfl, rfl⟩ := h
  refine ⟨before ++ first, last ++ behind, ?_, byteSize_append _ _⟩
  simp only [List.append_assoc]

/-- An offset between two characters has a line and a column. -/
theorem exists_lineColumn? (h : IsOffset t n) : ∃ place, lineColumn? t n = some place := by
  obtain ⟨before, behind, rfl, rfl⟩ := h
  have hmin : min (byteSize before) (byteSize (before ++ behind)) = byteSize before := by
    rw [byteSize_append]
    omega
  have hsplit : splitAtByte? (byteSize before) (before ++ behind) = some (before, behind) :=
    splitAtByte?_eq_some_iff.2 ⟨rfl, rfl⟩
  refine ⟨endPosition before, ?_⟩
  rw [lineColumn?, hmin, hsplit]
  rfl

/-! ## Lines and columns -/

/-- The size of the first lines of a text, with their line feeds. -/
def linesSize : Nat → Text → Nat
  | 0, _ => 0
  | _ + 1, [] => 0
  | n + 1, c :: t => c.utf8Size + linesSize (if c = '\n' then n else n + 1) t

/-- The offset of a line and a column, both counted from one, the column in bytes. -/
def offsetOf (t : Text) (line column : Nat) : Nat :=
  linesSize (line - 1) t + (column - 1)

/-- A line feed ends a line. -/
theorem linesSize_line (before behind : Text) :
    linesSize (before.count '\n' + 1) (before ++ '\n' :: behind) = byteSize before + 1 := by
  induction before with
  | nil =>
    rw [List.count_nil, List.nil_append, linesSize, if_pos rfl, linesSize]
    rfl
  | cons c before ih =>
    rw [List.cons_append, linesSize, byteSize_cons, Nat.add_assoc]
    by_cases hc : c = '\n'
    · rw [if_pos hc, hc, List.count_cons_self, ih]
    · rw [if_neg hc, List.count_cons_of_ne hc, ih]

/-- What stands before an offset is whole lines, and the last line up to its column. -/
theorem linesSize_endPosition (before behind : Text) :
    linesSize (before.count '\n') (before ++ behind) +
      byteSize (before.reverse.takeWhile (· ≠ '\n')) = byteSize before := by
  induction before using List.reverseRecOn generalizing behind with
  | nil =>
    rw [List.count_nil, linesSize]
    rfl
  | append_singleton before c ih =>
    have hsize : byteSize (before ++ [c]) = byteSize before + c.utf8Size := by
      rw [byteSize_append, byteSize_cons, byteSize_nil, Nat.add_zero]
    rw [List.append_assoc, List.singleton_append, List.count_append, List.reverse_append, hsize]
    change _ + byteSize ((c :: before.reverse).takeWhile _) = _
    by_cases hc : c = '\n'
    · subst hc
      exact linesSize_line before behind
    · have hcount : [c].count '\n' = 0 := List.count_eq_zero_of_not_mem (by simp [Ne.symm hc])
      have hlast : (c :: before.reverse).takeWhile (· ≠ '\n') =
          c :: before.reverse.takeWhile (· ≠ '\n') := List.takeWhile_cons_of_pos (decide_eq_true hc)
      have hbefore := ih (c :: behind)
      rw [hcount, Nat.add_zero, hlast, byteSize_cons]
      omega

/-- The line and the column of an offset tell the offset. -/
theorem offsetOf_lineColumn {line column : Nat} (h : IsOffset t n)
    (hplace : lineColumn? t n = some (line, column)) : offsetOf t line column = n := by
  obtain ⟨before, behind, rfl, rfl⟩ := h
  have hmin : min (byteSize before) (byteSize (before ++ behind)) = byteSize before := by
    rw [byteSize_append]
    omega
  have hsplit : splitAtByte? (byteSize before) (before ++ behind) = some (before, behind) :=
    splitAtByte?_eq_some_iff.2 ⟨rfl, rfl⟩
  rw [lineColumn?, hmin, hsplit] at hplace
  cases hplace
  exact linesSize_endPosition before behind

end Text

namespace Span

/-! ## Spans of a text -/

/-- Whether a span lies in a text: it ends where it starts or behind, and there is no end of it
inside a character. -/
structure IsIn (source : Text) (span : Span) : Prop where
  /-- It starts between characters. -/
  start : IsOffset source span.start
  /-- It stops between characters. -/
  stop : IsOffset source span.stop
  /-- It does not stop before it starts. -/
  le : span.start ≤ span.stop

/-- Whether a part of a text stands at a span. -/
def Holds (source : Text) (span : Span) (part : Text) : Prop :=
  ∃ before behind, source = before ++ (part ++ behind) ∧
    span = ⟨byteSize before, byteSize before + byteSize part⟩

variable {source part : Text} {span : Span}

theorem Holds.isIn (h : span.Holds source part) : span.IsIn source := by
  obtain ⟨before, behind, rfl, rfl⟩ := h
  refine ⟨⟨before, part ++ behind, rfl, rfl⟩, ⟨before ++ part, behind, ?_, byteSize_append _ _⟩, ?_⟩
  · rw [List.append_assoc]
  · exact Nat.le_add_right _ _

/-- What lies between two ends of a text. -/
theorem isIn_of_suffix {t rest : Text} (ht : t <:+ source) (hrest : rest <:+ t) :
    IsIn source ⟨byteSize source - byteSize t, byteSize source - byteSize rest⟩ := by
  refine ⟨isOffset_of_suffix ht, isOffset_of_suffix (hrest.trans ht), ?_⟩
  obtain ⟨before, rfl⟩ := hrest
  show byteSize source - _ ≤ byteSize source - _
  rw [byteSize_append]
  omega

/-- What lies between an offset and the end of a text. -/
theorem isIn_of_isOffset {n : Nat} (h : IsOffset source n) : IsIn source ⟨n, byteSize source⟩ := by
  obtain ⟨before, behind, rfl, rfl⟩ := h
  refine ⟨⟨before, behind, rfl, rfl⟩, ⟨before ++ behind, [], (List.append_nil _).symm, rfl⟩, ?_⟩
  rw [byteSize_append]
  exact Nat.le_add_right _ _

/-! ## Spans in order -/

/-- Whether spans stand one behind another between two offsets, none of them empty. -/
def InOrder (low high : Nat) : List Span → Prop
  | [] => low ≤ high
  | span :: spans => low ≤ span.start ∧ span.start < span.stop ∧ InOrder span.stop high spans

variable {low middle high : Nat} {spans more : List Span}

theorem InOrder.le (h : InOrder low high spans) : low ≤ high := by
  induction spans generalizing low with
  | nil => exact h
  | cons span spans ih => exact Nat.le_trans h.1 (Nat.le_trans (Nat.le_of_lt h.2.1) (ih h.2.2))

theorem InOrder.of_le (hle : low ≤ middle) (h : InOrder middle high spans) :
    InOrder low high spans := by
  cases spans with
  | nil => exact Nat.le_trans hle h
  | cons span spans => exact ⟨Nat.le_trans hle h.1, h.2⟩

theorem InOrder.to_le (h : InOrder low middle spans) (hle : middle ≤ high) :
    InOrder low high spans := by
  induction spans generalizing low with
  | nil => exact Nat.le_trans h hle
  | cons span spans ih => exact ⟨h.1, h.2.1, ih h.2.2⟩

theorem InOrder.append (h : InOrder low middle spans) (hmore : InOrder middle high more) :
    InOrder low high (spans ++ more) := by
  induction spans generalizing low with
  | nil => exact hmore.of_le h
  | cons span spans ih => exact ⟨h.1, h.2.1, ih h.2.2⟩

/-- Some of the spans are in order too. -/
theorem InOrder.sublist (h : InOrder low high spans) (hsub : more.Sublist spans) :
    InOrder low high more := by
  induction hsub generalizing low with
  | slnil => exact h
  | cons span _ ih => exact (ih h.2.2).of_le (Nat.le_trans h.1 (Nat.le_of_lt h.2.1))
  | cons_cons span _ ih => exact ⟨h.1, h.2.1, ih h.2.2⟩

end Span

end ModuleServer
