import Mathlib.Data.List.Nodup
import ModuleServer.Proofs.Render.Markup
import ModuleServer.Proofs.Script.Reads

/-!
# Shapes of code

The shapes that nodes are written in are read back as the terms that they write, on one line or on
several (`reads_call`, `reads_array`, `reads_object`), and attributes of different names as the
object of their values (`exists_reads_props`).
-/

namespace ModuleServer.Render

open Text Template
open Script (Term Reads Runs Enclosure isPlainName)
open List (Forall₂)

/-! ## Shapes -/

section Shapes

variable {texts : List Text} {terms : List Term} {rest : Text}

theorem isBlank_indent (depth : Nat) : (indent depth).all isBlank := by
  rw [indent, List.all_replicate]
  split
  · rfl
  · rfl

theorem isPlainName_localName (h : Helper) : isPlainName h.localName := by
  cases h <;> decide

theorem reads_call {function : Text} (hname : isPlainName function)
    (h : Forall₂ Reads texts terms) (hne : terms ≠ []) :
    Reads (call function texts) (.call function terms) := by
  intro rest frames hrest hframes
  have hitems : Forall₂ (Enclosure.call function frames hframes).ReadsItem texts terms :=
    h.imp fun t term hread rest done hrest => hread rest _ hrest rfl
  have hnone : ([] : Text).all isBlank := rfl
  have hblank : [' '].all isBlank := by decide
  have hruns := Enclosure.runs _ hnone hblank hnone hitems hne rest
  have hcomplete : (Enclosure.call function frames hframes).complete terms.reverse =
      ⟨frames, some (.call function terms)⟩ := by
    simp [Enclosure.call]
  rw [hcomplete] at hruns
  rw [call, List.append_assoc, List.append_assoc]
  exact .append (.name hname rfl frames) hruns

/-- Items on lines of their own. -/
theorem runs_block {α : Type} (e : Enclosure α) {items : List α} (depth : Nat)
    (hitems : Forall₂ e.ReadsItem texts items) (hne : items ≠ []) (rest : Text) :
    Runs (block e.bracket.opening e.bracket.closing depth texts) rest e.before
      (e.complete items.reverse) := by
  have hline : ['\n'].all isBlank := by decide
  have hlast : (['\n'] ++ indent depth).all isBlank := by
    rw [List.all_append, isBlank_indent, hline]
    rfl
  have hindented : Forall₂ e.ReadsItem (texts.map fun t => indent (depth + 1) ++ t) items := by
    rw [List.forall₂_map_left_iff]
    exact hitems.imp fun t a hread rest done hrest =>
      .append (.blanks (isBlank_indent _)) (hread rest done hrest)
  have hruns := e.runs hline hline hlast hindented hne rest
  simpa [block] using hruns

theorem reads_array (depth : Nat) (h : Forall₂ Reads texts terms) :
    Reads (array depth texts) (.array terms) := by
  intro rest frames hrest hframes
  have hitems : Forall₂ (Enclosure.array frames hframes).ReadsItem texts terms :=
    h.imp fun t term hread rest done hrest => hread rest _ hrest rfl
  have hcomplete : (Enclosure.array frames hframes).complete terms.reverse =
      ⟨frames, some (.array terms)⟩ := by
    simp [Enclosure.array]
  cases h with
  | nil =>
    exact .append (t := ['[']) (.opening (Enclosure.array frames hframes).opens)
      (.closing (b := .square) rfl)
  | cons ht h =>
    rw [← hcomplete]
    exact runs_block _ depth hitems (List.cons_ne_nil _ _) rest

/-- An entry of an object, its value a string. -/
def entryText (entry : Text × Text) : Text :=
  Script.key entry.1 ++ [':', ' '] ++ Script.quote entry.2

/-- What an entry of an object is read as. -/
def entryTerm (entry : Text × Text) : Text × Term :=
  (entry.1, .string entry.2)

/-- An object of strings, on one line or on several. -/
theorem reads_object (depth : Nat) {entries : List (Text × Text)} (hne : entries ≠ []) :
    Reads (object depth (entries.map entryText)) (.object (entries.map entryTerm)) := by
  intro rest frames hrest hframes
  have hitems : Forall₂ (Enclosure.object frames hframes).ReadsItem (entries.map entryText)
      (entries.map entryTerm) := by
    rw [List.forall₂_map_left_iff, List.forall₂_map_right_iff, List.forall₂_same]
    intro entry _ rest done hrest
    exact .append (Script.runs_key entry.1 _ done frames) (.quote entry.2 rest _)
  have hterms : entries.map entryTerm ≠ [] := by simpa using hne
  have hcomplete : (Enclosure.object frames hframes).complete (entries.map entryTerm).reverse =
      ⟨frames, some (.object (entries.map entryTerm))⟩ := by
    simp [Enclosure.object]
  rw [← hcomplete, object]
  split
  · have hblank : [' '].all isBlank := by decide
    exact Enclosure.runs _ hblank hblank hblank hitems hterms rest
  · exact runs_block _ depth hitems hterms rest

end Shapes

/-! ## Props -/

section Props

variable {attributes : List (Text × Text)}

/-- The contribution of an attribute. -/
def contribution (a : Text × Text) : Assignment :=
  .set a.1 (.literal a.2)

/-- The part of the props that an attribute is. -/
def partOf (a : Text × Text) : Part :=
  .entry a.1 (.literal a.2)

theorem set_partOf {a : Text × Text} (h : a.1 ∉ attributes.map Prod.fst) :
    Part.set a.1 (.literal a.2) (attributes.map partOf) =
      (attributes ++ [a]).map partOf := by
  induction attributes with
  | nil => rfl
  | cons first attributes ih =>
    rw [List.map_cons, List.mem_cons, not_or] at h
    rw [List.map_cons, partOf, Part.set, if_neg (Ne.symm h.1), ih h.2]
    rfl

theorem foldl_contributions (done : List (Text × Text))
    (h : ((done ++ attributes).map Prod.fst).Nodup) :
    (attributes.map contribution).foldl Part.add (done.map partOf) =
      (done ++ attributes).map partOf := by
  induction attributes generalizing done with
  | nil => simp
  | cons a attributes ih =>
    have hnew : a.1 ∉ done.map Prod.fst := by
      rw [List.map_append, List.map_cons, List.nodup_middle, List.nodup_cons] at h
      exact fun hmem => h.1 (List.mem_append_left _ hmem)
    have hassoc : done ++ a :: attributes = (done ++ [a]) ++ attributes := by
      simp
    rw [hassoc] at h ⊢
    rw [List.map_cons, List.foldl_cons, contribution, Part.add, set_partOf hnew]
    exact ih _ h

/-- Attributes of different names are the parts of their props. -/
theorem parts_contributions (h : (attributes.map Prod.fst).Nodup) :
    Assignment.parts (attributes.map contribution) = attributes.map partOf :=
  foldl_contributions [] h

theorem arguments_partOf (depth : Nat) (run : List Text) :
    Part.arguments depth run (attributes.map partOf) =
      if (run.reverse ++ attributes.map entryText).isEmpty then []
      else [object depth (run.reverse ++ attributes.map entryText)] := by
  induction attributes generalizing run with
  | nil => simp [Part.arguments]
  | cons a attributes ih =>
    rw [List.map_cons, partOf, Part.arguments, ih, List.reverse_cons, List.append_assoc]
    rfl

/-- Attributes of different names are written as one object, unless there are none. -/
theorem print?_contributions (depth : Nat) (h : (attributes.map Prod.fst).Nodup) :
    Assignment.print? depth (attributes.map contribution) =
      if attributes.isEmpty then none else some (object depth (attributes.map entryText)) := by
  have hspread : (attributes.map partOf).any Part.isSpread = false := by
    simp [partOf, Part.isSpread]
  rw [Assignment.print?, parts_contributions h, hspread, arguments_partOf]
  cases attributes <;> rfl

/-- The object of attributes tells the attributes. -/
theorem attributesOf?_object :
    Markup.attributesOf? (.object (attributes.map entryTerm)) = some attributes := by
  rw [Markup.attributesOf?]
  induction attributes with
  | nil => rfl
  | cons a attributes ih =>
    rw [List.map_cons, List.mapM_cons, ih]
    rfl

theorem reads_null : Reads "null".toList (.name "null".toList) :=
  Script.reads_name (by decide)

/-- The props of attributes tell the attributes, `null` standing for none. -/
theorem exists_reads_props (depth : Nat) (h : (attributes.map Prod.fst).Nodup) :
    ∃ term,
      Reads ((Assignment.print? depth (attributes.map contribution)).getD "null".toList) term ∧
      Markup.attributesOf? term = some attributes := by
  rw [print?_contributions depth h]
  cases attributes with
  | nil => exact ⟨.name "null".toList, reads_null, rfl⟩
  | cons a attributes =>
    exact ⟨_, reads_object depth (List.cons_ne_nil a attributes), attributesOf?_object⟩

end Props

end ModuleServer.Render
