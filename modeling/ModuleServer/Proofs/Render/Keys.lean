import Mathlib.Data.List.Nodup
import ModuleServer.Proofs.Render.Given
import ModuleServer.Proofs.Render.Literal

/-!
# Keys of props

The keys of the props objects of an element can be told from its tag: which keys its items give, and
whether they replace or come behind (`grants`). Only what comes behind can give an object a key
twice: a listener or the inner markup, if its key has been given since the last spread object
(`noClash`).
-/

namespace ModuleServer.Render

open Text Template

/-! ## What items give -/

/-- What an item does to the props. -/
inductive Grant where
  /-- It gives a value to a key, in place of the one it has. -/
  | set (key : Text)
  /-- It gives a value to a key, behind all that is there. -/
  | append (key : Text)
  /-- It takes over all entries of an object. -/
  | spread
deriving DecidableEq, Repr

/-- What a contribution does to the props. -/
def Assignment.grant : Assignment → Grant
  | .set key _ => .set key
  | .append key _ => .append key
  | .spread _ => .spread

/-- What a directive does to the props, if anything. -/
def directiveGrant? (skipped : List Text) (d : Directive) : Option Grant :=
  if d.name = "bind".toList then
    match d.arg with
    | some arg =>
      if skipped.contains arg then none
      else some (.set (if d.modifiers.contains "camel".toList then camelize arg else arg))
    | none => some .spread
  else if d.name = "on".toList then
    d.arg.map fun event =>
      .append
        (listenerKey event ++ (d.modifiers.filter optionModifiers.contains).flatMap capitalize)
  else if d.name = "html".toList then some (.append "innerHTML".toList)
  else none

/-- What an item does to the props, if anything. -/
def grant? (skipped : List Text) : Item → Option Grant
  | .attribute a => if skipped.contains a.name then none else some (.set a.name)
  | .directive d => directiveGrant? skipped d

/-- What the items of a tag do to the props, in order. -/
def grants (skipped : List Text) (items : List Item) : List Grant :=
  items.filterMap (grant? skipped)

section Grants

variable {locals skipped : List Text}

/-- A contribution does to the props what its item tells. -/
theorem grant_of_contributes {item : Item} {found : Option Assignment}
    (h : Contributes locals skipped item found) :
    found.map Assignment.grant = grant? skipped item := by
  cases h with
  | plain a hkept => exact (if_neg hkept).symm
  | skippedPlain a hskipped => exact (if_pos hskipped).symm
  | bind hname harg hkept he =>
    rw [grant?, directiveGrant?, if_pos hname, harg]
    exact (if_neg hkept).symm
  | skippedBind hname harg hskipped =>
    rw [grant?, directiveGrant?, if_pos hname, harg]
    exact (if_pos hskipped).symm
  | spread hname harg hexp he =>
    rw [grant?, directiveGrant?, if_pos hname, harg]
    rfl
  | @listener d event reaction hname harg hreact =>
    have hbind : d.name ≠ "bind".toList := by
      rw [hname]
      decide
    rw [grant?, directiveGrant?, if_neg hbind, if_pos hname, harg]
    rfl
  | @markup d exp e hname hexp he =>
    have hothers : d.name ≠ "bind".toList ∧ d.name ≠ "on".toList := by
      rw [hname]
      decide
    rw [grant?, directiveGrant?, if_neg hothers.1, if_neg hothers.2, if_pos hname]
    rfl
  | @structural d hname =>
    have hother : ∀ name, name ∉ structuralDirectives → d.name ≠ name := by
      rintro _ hnot rfl
      exact hnot hname
    rw [grant?, directiveGrant?, if_neg (hother _ (by decide)), if_neg (hother _ (by decide)),
      if_neg (hother _ (by decide))]
    rfl

/-- The contributions of items do to the props what the items tell. -/
theorem grants_of_assignments {items : List Item} {props : List Assignment}
    (h : assignments locals skipped items = .ok props) :
    props.map Assignment.grant = grants skipped items := by
  obtain ⟨found, hfound, rfl⟩ := contributes_of_assignments h
  clear h
  induction hfound with
  | nil => rfl
  | @cons item c items found hfirst hfound ih =>
    rw [List.flatMap_cons, List.map_append, ih, grants, grants, List.filterMap_cons,
      ← grant_of_contributes hfirst]
    cases c <;> rfl

end Grants

/-! ## Keys of runs -/

/-- The key of a part, if it is an entry. -/
def Part.key? : Part → Option Text
  | .entry key _ => some key
  | .spread _ => none

/-- The keys of parts. -/
def Part.keys (parts : List Part) : List Text :=
  parts.filterMap Part.key?

/-- The keys behind the last spread object, from the end on; `run` are those that stand before. -/
def Part.openKeys (run : List Text) : List Part → List Text
  | [] => run
  | .entry key _ :: rest => Part.openKeys (key :: run) rest
  | .spread _ :: rest => Part.openKeys [] rest

/-- No run of entries has a key twice; `run` are the keys that stand before. -/
def Part.AreDistinct (run : List Text) : List Part → Prop
  | [] => run.Nodup
  | .entry key _ :: rest => Part.AreDistinct (key :: run) rest
  | .spread _ :: rest => run.Nodup ∧ Part.AreDistinct [] rest

section Runs

variable {run : List Text} {key : Text} {parts : List Part}

theorem forall_runs_iff {run : List (Text × Value)} :
    (∀ entries ∈ Part.runs run parts, (entries.map Prod.fst).Nodup) ↔
      Part.AreDistinct (run.map Prod.fst) parts := by
  have hrun : ∀ run : List (Text × Value),
      (∀ entries ∈ (if run.isEmpty then [] else [run.reverse]), (entries.map Prod.fst).Nodup) ↔
        (run.map Prod.fst).Nodup := by
    intro run
    cases run with
    | nil => simp
    | cons entry run =>
      rw [List.isEmpty_cons, if_neg Bool.false_ne_true, List.forall_mem_singleton,
        List.map_reverse, List.nodup_reverse]
  induction parts generalizing run with
  | nil => exact hrun run
  | cons part rest ih =>
    cases part with
    | entry key value => exact ih
    | spread exp =>
      rw [Part.runs, List.forall_mem_append]
      exact and_congr (hrun run) ih

theorem mem_of_mem_openKeys (h : key ∈ Part.openKeys run parts) :
    key ∈ run ∨ key ∈ Part.keys parts := by
  induction parts generalizing run with
  | nil => exact .inl h
  | cons part rest ih =>
    cases part with
    | entry key' value =>
      rcases ih h with h | h
      · rcases List.mem_cons.1 h with rfl | h
        · exact .inr (List.mem_cons_self ..)
        · exact .inl h
      · exact .inr (List.mem_cons_of_mem _ h)
    | spread exp =>
      rcases ih h with h | h
      · cases h
      · exact .inr h

theorem openKeys_append_entry (value : Value) :
    Part.openKeys run (parts ++ [.entry key value]) = key :: Part.openKeys run parts := by
  induction parts generalizing run with
  | nil => rfl
  | cons part rest ih => cases part <;> exact ih

theorem openKeys_append_spread (exp : Text) :
    Part.openKeys run (parts ++ [.spread exp]) = [] := by
  induction parts generalizing run with
  | nil => rfl
  | cons part rest ih => cases part <;> exact ih

theorem areDistinct_append_entry (value : Value) :
    Part.AreDistinct run (parts ++ [.entry key value]) ↔
      Part.AreDistinct run parts ∧ key ∉ Part.openKeys run parts := by
  induction parts generalizing run with
  | nil =>
    change (key :: run).Nodup ↔ run.Nodup ∧ key ∉ run
    rw [List.nodup_cons, and_comm]
  | cons part rest ih =>
    cases part with
    | entry key' value' => exact ih
    | spread exp =>
      exact (and_congr_right fun _ => ih).trans and_assoc.symm

theorem areDistinct_append_spread (exp : Text) :
    Part.AreDistinct run (parts ++ [.spread exp]) ↔ Part.AreDistinct run parts := by
  induction parts generalizing run with
  | nil => exact and_iff_left List.nodup_nil
  | cons part rest ih =>
    cases part with
    | entry key' value' => exact ih
    | spread exp' => exact and_congr_right fun _ => ih

/-- A key that is there is given a value where it stands. -/
theorem set_of_mem (value : Value) (h : key ∈ Part.keys parts) :
    Part.keys (Part.set key value parts) = Part.keys parts ∧
      ∀ run, Part.openKeys run (Part.set key value parts) = Part.openKeys run parts ∧
        (Part.AreDistinct run (Part.set key value parts) ↔ Part.AreDistinct run parts) := by
  induction parts with
  | nil => cases h
  | cons part rest ih =>
    cases part with
    | entry key' value' =>
      rw [Part.set]
      split
      · exact ⟨rfl, fun run => ⟨rfl, Iff.rfl⟩⟩
      · rename_i hne
        rcases List.mem_cons.1 h with heq | h
        · exact absurd heq.symm hne
        · obtain ⟨hkeys, hruns⟩ := ih h
          exact ⟨congrArg (key' :: ·) hkeys, fun run => hruns (key' :: run)⟩
    | spread exp =>
      obtain ⟨hkeys, hruns⟩ := ih h
      exact ⟨hkeys, fun run => ⟨(hruns []).1, and_congr_right fun _ => (hruns []).2⟩⟩

/-- A key that is not there is given a value behind all others. -/
theorem set_of_not_mem (value : Value) (h : key ∉ Part.keys parts) :
    Part.set key value parts = parts ++ [.entry key value] := by
  induction parts with
  | nil => rfl
  | cons part rest ih =>
    cases part with
    | entry key' value' =>
      obtain ⟨hne, hrest⟩ := not_or.1 (mt List.mem_cons.2 h)
      rw [Part.set, if_neg (Ne.symm hne), ih hrest]
      rfl
    | spread exp =>
      rw [Part.set, ih h]
      rfl

end Runs

/-! ## Keys of props -/

/-- Nothing comes behind an entry of the same key in one object. `given` are the keys given so far,
`run` those given since the last spread object. -/
def noClash (given run : List Text) : List Grant → Bool
  | [] => true
  | .set key :: rest =>
    if given.contains key then noClash given run rest
    else noClash (given ++ [key]) (key :: run) rest
  | .append key :: rest => !run.contains key && noClash (given ++ [key]) (key :: run) rest
  | .spread :: rest => noClash given [] rest

theorem keys_append_entry (parts : List Part) (key : Text) (value : Value) :
    Part.keys (parts ++ [.entry key value]) = Part.keys parts ++ [key] :=
  List.filterMap_append ..

/-- One contribution after another keeps the keys of each object distinct, unless it comes behind an
entry of its key. -/
theorem areDistinct_foldl (props : List Assignment) (parts : List Part) :
    Part.AreDistinct [] (props.foldl Part.add parts) ↔ Part.AreDistinct [] parts ∧
      noClash (Part.keys parts) (Part.openKeys [] parts) (props.map Assignment.grant) := by
  induction props generalizing parts with
  | nil => simp [noClash]
  | cons assignment props ih =>
    rw [List.foldl_cons, ih, List.map_cons]
    cases assignment with
    | set key value =>
      simp only [Part.add, Assignment.grant, noClash, List.contains_iff_mem]
      by_cases hkey : key ∈ Part.keys parts
      · obtain ⟨hkeys, hruns⟩ := set_of_mem value hkey
        rw [hkeys, (hruns []).1, (hruns []).2, if_pos hkey]
      · have hopen : key ∉ Part.openKeys [] parts := by
          intro h
          rcases mem_of_mem_openKeys h with h | h
          · cases h
          · exact hkey h
        rw [set_of_not_mem value hkey, areDistinct_append_entry, openKeys_append_entry,
          keys_append_entry, if_neg hkey, and_iff_left hopen]
    | append key value =>
      simp only [Part.add, Assignment.grant, noClash, areDistinct_append_entry,
        openKeys_append_entry, keys_append_entry, Bool.and_eq_true, Bool.not_eq_true',
        ← Bool.not_eq_true, List.contains_iff_mem, and_assoc]
    | spread exp =>
      have hkeys : Part.keys (parts ++ [.spread exp]) = Part.keys parts := by
        simp [Part.keys, Part.key?]
      rw [Part.add, areDistinct_append_spread, openKeys_append_spread, hkeys]
      rfl

/-- The props of a tag's items are written without a key that stands twice in one object if and only
if no item clashes. -/
theorem nodup_ofProps_iff {locals skipped : List Text} {items : List Item}
    {props : List Assignment} (h : assignments locals skipped items = .ok props) :
    (∀ literal ∈ ObjectLiteral.ofProps props, literal.keys.Nodup) ↔
      noClash [] [] (grants skipped items) := by
  rw [ObjectLiteral.ofProps, List.forall_mem_map, ← grants_of_assignments h]
  refine forall_runs_iff.trans ((areDistinct_foldl props []).trans ?_)
  exact and_iff_right List.nodup_nil

end ModuleServer.Render
