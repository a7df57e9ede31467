import Mathlib.Data.List.Induction
import ModuleServer.Proofs.Render.Literal
import ModuleServer.Proofs.Render.Neutral
import ModuleServer.Proofs.Render.Parts
import ModuleServer.Proofs.Render.Reference

/-!
# What nodes refer to

The references in the code of a node are the local names of its helpers and the variables of its
components (`mem_references_print`), if the texts that it is made from are quiet (`quietParts`).

The helpers of props count those of every contribution, also of one that is replaced and not
written. Only a listener has helpers and can be replaced: where none is (`Assignment.Keeps`), the
helpers of the contributions are those of what is written (`mem_helpers_iff`).
-/

namespace ModuleServer.Render

open Text Expression

/-! ## Values -/

/-- The texts of a value are quiet. -/
def Value.IsQuiet : Value → Prop
  | .literal t => '_' ∉ t
  | .expression exp => references exp = []
  | .listener reaction guards keys =>
    references reaction.print = [] ∧ ∀ m ∈ guards ++ keys, '_' ∉ m
  | .joinedClass a b => a.IsQuiet ∧ b.IsQuiet
  | .joinedStyle a b => a.IsQuiet ∧ b.IsQuiet

section Values

variable {word : Text}

theorem references_wrap (helper : Helper) {modifiers : List Text} (h : ∀ m ∈ modifiers, '_' ∉ m)
    (function : Text) : references (Value.wrap helper modifiers function) =
      (if modifiers.isEmpty then [] else [helper.localName]) ++ references function := by
  have hquotes : (modifiers.map Script.quote).flatMap references = [] := by
    rw [List.flatMap_map, List.flatMap_eq_nil_iff]
    exact fun m hm => references_quote (h m hm)
  rw [Value.wrap]
  split
  · rfl
  · simp [references_helper, references_shortArray, hquotes]

/-- A function that evaluates an expression refers to what the expression refers to. -/
theorem references_evaluate (exp : Text) :
    references (Reaction.evaluate exp).print = references exp := by
  have hevent := references_behind (s := ['$', 'e', 'v', 'e', 'n', 't']) (c := ' ') (by decide)
    (by decide)
  have hcut : "$event => (".toList =
      ['$', 'e', 'v', 'e', 'n', 't'] ++ ' ' :: ['=', '>', ' ', '('] := by decide
  show references ("$event => (".toList ++ exp ++ [')']) = _
  rw [hcut, List.append_assoc, List.append_assoc]
  refine (hevent (['=', '>', ' ', '('] ++ (exp ++ [')']))).trans ?_
  simp (disch := decide) only [List.cons_append, List.nil_append, references_cons,
    references_append_cons, references_nil, List.append_nil]

theorem mem_references_value {v : Value} (h : v.IsQuiet) :
    word ∈ references v.print ↔ word ∈ v.helpers.map Helper.localName := by
  induction v with
  | literal t => simp [Value.print, Value.helpers, references_quote h]
  | expression exp => simp [Value.print, Value.helpers, show references exp = [] from h]
  | listener reaction guards keys =>
    obtain ⟨hreaction, hmodifiers⟩ := h
    obtain ⟨hguards, hkeys⟩ := List.forall_mem_append.1 hmodifiers
    rw [Value.print, references_wrap _ hkeys, references_wrap _ hguards, hreaction, Value.helpers]
    cases guards <;> cases keys <;> simp [or_comm]
  | joinedClass a b iha ihb =>
    simp [Value.print, Value.helpers, references_helper, references_shortArray, iha h.1, ihb h.2]
  | joinedStyle a b iha ihb =>
    simp [Value.print, Value.helpers, references_helper, references_shortArray, iha h.1, ihb h.2]

end Values

/-! ## Parts of props -/

/-- The texts of a part are quiet. -/
def Part.IsQuiet : Part → Prop
  | .entry key value => '_' ∉ key ∧ value.IsQuiet
  | .spread exp => references exp = []

/-- The references of the value of a part. -/
def Part.references : Part → List Text
  | .entry _ value => Render.references value.print
  | .spread _ => []

section PropParts

variable {word : Text} {parts : List Part}

theorem flatMap_references_arguments (depth : Nat) (run : List Text)
    (h : ∀ p ∈ parts, p.IsQuiet) : (Part.arguments depth run parts).flatMap references =
      run.reverse.flatMap references ++ parts.flatMap Part.references := by
  have hobject : ∀ run : List Text,
      (if run.isEmpty then [] else [object depth run.reverse]).flatMap references =
        run.reverse.flatMap references := by
    intro run
    cases run with
    | nil => rfl
    | cons t run => simp [references_object]
  induction parts generalizing run with
  | nil => rw [Part.arguments, hobject, List.flatMap_nil, List.append_nil]
  | cons p parts ih =>
    obtain ⟨hp, hparts⟩ := List.forall_mem_cons.1 h
    cases p with
    | entry key value =>
      have hentry : references (Script.key key ++ [':', ' '] ++ value.print) =
          references value.print := by
        simp (disch := decide) only [List.append_assoc, List.cons_append, List.nil_append,
          references_append_cons, references_cons, references_key hp.1]
      rw [Part.arguments, ih _ hparts, List.reverse_cons, List.flatMap_append,
        List.flatMap_singleton, hentry, List.flatMap_cons, Part.references, List.append_assoc]
    | spread exp =>
      have hexp : references exp = [] := hp
      rw [Part.arguments, List.flatMap_append, List.flatMap_cons, hobject, ih _ hparts, hexp]
      simp [Part.references]

/-- The helpers of parts are those of their values, and the one that merges. -/
theorem mem_helpers_parts (h : ∀ p ∈ parts, p.IsQuiet) :
    word ∈ (parts.flatMap Part.helpers).map Helper.localName ↔
      (parts.any Part.isSpread ∧ word = Helper.mergeProps.localName) ∨
        word ∈ parts.flatMap Part.references := by
  induction parts with
  | nil => simp
  | cons p parts ih =>
    obtain ⟨hp, hparts⟩ := List.forall_mem_cons.1 h
    rw [List.flatMap_cons, List.map_append, List.mem_append, ih hparts, List.flatMap_cons,
      List.mem_append, List.any_cons]
    cases p with
    | entry key value =>
      rw [Part.helpers, Part.references, mem_references_value hp.2, Part.isSpread, Bool.false_or]
      exact or_left_comm
    | spread exp =>
      rw [Part.helpers, Part.references, Part.isSpread, Bool.true_or, List.map_singleton,
        List.mem_singleton, ← or_assoc, or_iff_left_of_imp And.right]
      simp

end PropParts

/-! ## Props -/

/-- The texts of a contribution are quiet, and only one that is appended has helpers. -/
def Assignment.IsQuiet : Assignment → Prop
  | .set key value => '_' ∉ key ∧ value.IsQuiet ∧ value.helpers = []
  | .append key value => '_' ∉ key ∧ value.IsQuiet
  | .spread exp => references exp = []

/-- A later contribution does not replace an earlier one that has helpers. -/
def Assignment.Keeps (earlier later : Assignment) : Prop :=
  ∀ key value new, earlier = .append key value → value.helpers ≠ [] → later ≠ .set key new

section Props

variable {word : Text} {props : List Assignment}

theorem isQuiet_parts (h : ∀ a ∈ props, a.IsQuiet) :
    ∀ p ∈ Assignment.parts props, p.IsQuiet := by
  refine Assignment.forall_parts (fun key old new hold hnew => ⟨hold.1, ?_⟩) fun a ha => ?_
  · rw [Value.combine]
    split
    · exact ⟨hold.2, hnew.2⟩
    split
    · exact ⟨hold.2, hnew.2⟩
    · exact hnew.2
  · have hquiet := h a ha
    cases a with
    | set key value => exact ⟨hquiet.1, hquiet.2.1⟩
    | append key value => exact hquiet
    | spread exp => exact hquiet

/-- A key whose values are joined. -/
def IsJoinedKey (key : Text) : Prop :=
  key = "class".toList ∨ key = "style".toList

/-- A part with helpers has a key whose values are joined, or was appended with helpers. -/
def Part.ComesFrom (props : List Assignment) : Part → Prop
  | .entry key value => value.helpers ≠ [] →
    IsJoinedKey key ∨ ∃ first, .append key first ∈ props ∧ first.helpers ≠ []
  | .spread _ => True

theorem comesFrom_of_mem_parts (h : ∀ a ∈ props, a.IsQuiet) :
    ∀ p ∈ Assignment.parts props, p.ComesFrom props := by
  refine Assignment.forall_parts (fun key old new _ hnew hhelpers => ?_) fun a ha => ?_
  · rw [Value.combine] at hhelpers
    split at hhelpers
    · exact .inl (.inl ‹_›)
    split at hhelpers
    · exact .inl (.inr ‹_›)
    · exact hnew hhelpers
  · cases a with
    | set key value => exact fun hhelpers => absurd (h _ ha).2.2 hhelpers
    | append key value => exact fun hhelpers => .inr ⟨value, ha, hhelpers⟩
    | spread exp => trivial

/-- Giving a value to a key keeps the helpers of all parts, if no part of the key has helpers that
are not joined. -/
theorem mem_helpers_set {helper : Helper} {key : Text} (value : Value) {parts : List Part}
    (hkeep : ∀ old, .entry key old ∈ parts → old.helpers ≠ [] → IsJoinedKey key)
    (h : helper ∈ parts.flatMap Part.helpers) :
    helper ∈ (Part.set key value parts).flatMap Part.helpers := by
  induction parts with
  | nil => cases h
  | cons p parts ih =>
    have hrest : ∀ old, .entry key old ∈ parts → old.helpers ≠ [] → IsJoinedKey key :=
      fun old hold => hkeep old (List.mem_cons_of_mem _ hold)
    rw [List.flatMap_cons, List.mem_append] at h
    cases p with
    | spread exp =>
      rw [Part.set, List.flatMap_cons, List.mem_append]
      exact h.imp_right (ih hrest)
    | entry k old =>
      rw [Part.set]
      split
      · rename_i hk
        subst hk
        rw [List.flatMap_cons, List.mem_append]
        refine h.imp_left fun hold => ?_
        have hjoined := hkeep old (List.mem_cons_self ..) (List.ne_nil_of_mem hold)
        rw [Part.helpers, Value.combine]
        split
        · exact List.mem_cons_of_mem _ (List.mem_append_left _ hold)
        · rename_i hclass
          rw [if_pos (hjoined.resolve_left hclass)]
          exact List.mem_cons_of_mem _ (List.mem_append_left _ hold)
      · rw [List.flatMap_cons, List.mem_append]
        exact h.imp_right (ih hrest)

/-- Where no listener is replaced, the helpers of the contributions are still those of the parts. -/
theorem mem_parts_of_ownHelpers {helper : Helper} (h : ∀ a ∈ props, a.IsQuiet)
    (hkeeps : props.Pairwise Assignment.Keeps)
    (hmem : helper ∈ props.flatMap Assignment.ownHelpers) :
    helper ∈ (Assignment.parts props).flatMap Part.helpers := by
  induction props using List.reverseRecOn with
  | nil => cases hmem
  | append_singleton props a ih =>
    obtain ⟨hprops, ha⟩ := List.forall_mem_append.1 h
    obtain ⟨hpairs, -, hlast⟩ := List.pairwise_append.1 hkeeps
    have hparts : Assignment.parts (props ++ [a]) = Part.add (Assignment.parts props) a := by
      rw [Assignment.parts, List.foldl_append]
      rfl
    rw [List.flatMap_append, List.mem_append, List.flatMap_singleton] at hmem
    rw [hparts]
    cases a with
    | set key value =>
      have hvalue : value.helpers = [] := (List.forall_mem_singleton.1 ha).2.2
      have hearlier : helper ∈ props.flatMap Assignment.ownHelpers := by
        refine hmem.resolve_right fun hown => ?_
        rw [Assignment.ownHelpers, hvalue] at hown
        cases hown
      refine mem_helpers_set value (fun old hold hhelpers => ?_) (ih hprops hpairs hearlier)
      refine (comesFrom_of_mem_parts hprops _ hold hhelpers).resolve_right ?_
      rintro ⟨first, hfirst, hne⟩
      exact hlast _ hfirst _ (List.mem_singleton.2 rfl) key first value rfl hne rfl
    | append key value =>
      rw [Part.add, List.flatMap_append, List.mem_append, List.flatMap_singleton]
      exact hmem.imp_left (ih hprops hpairs)
    | spread exp =>
      rw [Part.add, List.flatMap_append, List.mem_append, List.flatMap_singleton]
      exact hmem.imp_left (ih hprops hpairs)

/-- What is asked of the props of an element. -/
structure AreQuiet (props : List Assignment) : Prop where
  /-- The texts of all contributions are quiet. -/
  quiet : ∀ a ∈ props, a.IsQuiet
  /-- No listener is replaced. -/
  keeps : props.Pairwise Assignment.Keeps

theorem AreQuiet.mem_helpers_iff (h : AreQuiet props) {helper : Helper} :
    helper ∈ Assignment.helpers props ↔
      helper ∈ (Assignment.parts props).flatMap Part.helpers := by
  rw [Assignment.helpers, List.mem_append]
  exact or_iff_right_of_imp (mem_parts_of_ownHelpers h.quiet h.keeps)

/-- The references in props are their helpers. -/
theorem AreQuiet.mem_references (h : AreQuiet props) (depth : Nat) :
    word ∈ references ((Assignment.print? depth props).getD []) ↔
      word ∈ (Assignment.helpers props).map Helper.localName := by
  have hquiet := isQuiet_parts h.quiet
  have harguments := flatMap_references_arguments depth [] hquiet
  have hhelpers : word ∈ (Assignment.helpers props).map Helper.localName ↔
      word ∈ ((Assignment.parts props).flatMap Part.helpers).map Helper.localName := by
    simp only [List.mem_map, h.mem_helpers_iff]
  rw [hhelpers, mem_helpers_parts hquiet, Assignment.print?]
  rw [List.reverse_nil, List.flatMap_nil, List.nil_append] at harguments
  cases hspread : (Assignment.parts props).any Part.isSpread with
  | true =>
    rw [if_pos rfl, Option.getD_some, references_helper, harguments, List.mem_cons]
    simp
  | false =>
    have hlength := length_arguments_le depth [] hspread
    rw [if_neg Bool.false_ne_true, ← harguments]
    generalize Part.arguments depth [] (Assignment.parts props) = arguments at hlength
    rcases arguments with _ | ⟨argument, _ | ⟨second, arguments⟩⟩
    · simp
    · simp
    · simp at hlength

end Props

/-! ## Tallies -/

/-- References in code tally with helpers and components: together with the reference in the line of
each component, they are the local names of the helpers and the variables of the components. -/
def Tally (found : List Text) (helpers : List Helper) (components : List Text) : Prop :=
  ∀ word,
    (word ∈ found ∨ word ∈ components.map fun _ => Helper.resolveComponent.localName) ↔
      (word ∈ helpers.map Helper.localName ∨ word ∈ components.map componentVariable)

namespace Tally

variable {found found' : List Text} {helpers helpers' : List Helper}
  {components components' : List Text}

theorem of_helpers (h : ∀ word, word ∈ found ↔ word ∈ helpers.map Helper.localName) :
    Tally found helpers [] :=
  fun word => or_congr (h word) Iff.rfl

theorem nil : Tally [] [] [] :=
  of_helpers fun _ => Iff.rfl

theorem component (name : Text) : Tally [componentVariable name] [.resolveComponent] [name] :=
  fun _ => or_comm

theorem cons (helper : Helper) (h : Tally found helpers components) :
    Tally (helper.localName :: found) (helper :: helpers) components := by
  intro word
  rw [List.map_cons, List.mem_cons, List.mem_cons, or_assoc, or_assoc, h word]

theorem append (h : Tally found helpers components) (h' : Tally found' helpers' components') :
    Tally (found ++ found') (helpers ++ helpers') (components ++ components') := by
  intro word
  simp only [List.map_append, List.mem_append]
  rw [or_or_or_comm, h word, h' word, or_or_or_comm]

theorem of_mem_iff (h : Tally found helpers components)
    (hfound : ∀ word, word ∈ found' ↔ word ∈ found) : Tally found' helpers components :=
  fun word => (or_congr_left (hfound word)).trans (h word)

end Tally

/-! ## Nodes -/

/-- The texts of a part of a text are quiet. -/
def TextPart.IsQuiet : TextPart → Prop
  | .literal t => '_' ∉ t
  | .shown exp => references exp = []

/-- The value of a target refers to nothing. -/
def Target.IsQuiet : Target → Prop
  | .named _ => True
  | .dynamic value => references value.print = []

/-- What is asked of nodes so that their texts refer to nothing. -/
def quietParts : Parts where
  text := TextPart.IsQuiet
  tag tag := '_' ∉ tag
  props := AreQuiet
  target := Target.IsQuiet
  slot name params := '_' ∉ name ∧ '_' ∉ params
  outlet := Value.IsQuiet
  loop source names := references source = [] ∧ '_' ∉ names
  test test := references test = []

section Contents

variable {tag : Text} {props : List Assignment} {run : List TextPart}

theorem AreQuiet.tally (h : AreQuiet props) (depth : Nat) :
    Tally (references ((Assignment.print? depth props).getD [])) (Assignment.helpers props) [] :=
  .of_helpers fun _ => h.mem_references depth

theorem Value.IsQuiet.tally {v : Value} (h : v.IsQuiet) : Tally (references v.print) v.helpers [] :=
  .of_helpers fun _ => mem_references_value h

theorem Target.IsQuiet.tally {target : Target} (h : target.IsQuiet) :
    Tally (references target.print) target.helpers target.components := by
  cases target with
  | named name =>
    rw [Target.print, references_componentVariable]
    exact .component name
  | dynamic value =>
    have hvalue : references value.print = [] := h
    rw [Target.print, references_helper, List.flatMap_singleton, hvalue]
    exact Tally.nil.cons .resolveDynamicComponent

theorem tally_run (h : ∀ p ∈ run, p.IsQuiet) :
    Tally (references (printRun run)) (run.flatMap TextPart.helpers) [] := by
  have hpart : ∀ p ∈ run, references p.print = p.helpers.map Helper.localName := by
    intro p hp
    have hquiet := h p hp
    cases p with
    | literal t => exact references_quote hquiet
    | shown exp =>
      have hexp : references exp = [] := hquiet
      rw [TextPart.print, references_helper, List.flatMap_singleton, hexp]
      rfl
  have hall : references (printRun run) = (run.flatMap TextPart.helpers).map Helper.localName := by
    rw [printRun, references_joined (by decide), List.flatMap_map, List.map_flatMap]
    exact List.flatMap_congr hpart
  exact .of_helpers fun word => by rw [hall]

/-- A native element with some content. -/
theorem tally_element {helpers : List Helper} {components : List Text} (htag : '_' ∉ tag)
    (hprops : AreQuiet props) (depth : Nat) (content : Option Text)
    (hcontent : Tally (references (content.getD [])) helpers components) :
    Tally (references (create (Script.quote tag) (Assignment.print? depth props) content))
      (.createVNode :: (Assignment.helpers props ++ helpers)) components := by
  rw [references_create, references_quote htag, List.nil_append]
  exact ((hprops.tally depth).append hcontent).cons .createVNode

/-- The slots object of a component: an entry for each slot, in another order. -/
theorem mem_references_slotsObject (depth : Nat) (entries : List (Bool × Text)) {word : Text} :
    word ∈ references ((slotsObject depth entries).getD []) ↔
      word ∈ entries.flatMap fun entry => references entry.2 := by
  have hflag : references "_: 1 /* STABLE */".toList = [] := by decide
  have horder : word ∈ (orderSlots entries).flatMap references ↔
      word ∈ entries.flatMap fun entry => references entry.2 := by
    rw [orderSlots, ← List.map_append, List.flatMap_map]
    exact ((List.filter_append_perm _ entries).flatMap_right _).mem_iff
  rw [slotsObject]
  split
  · rename_i hempty
    rw [List.isEmpty_iff.1 hempty]
    rfl
  · rw [Option.getD_some, references_block (by decide) (by decide), List.flatMap_append,
      List.flatMap_singleton, hflag, List.append_nil, horder]

/-- What a place for a slot shows if nothing is passed. -/
theorem references_fallback (props : Option Text) (fallback : List VNode) (depth : Nat) :
    (if fallback.isEmpty then props.toList
      else [props.getD ['{', '}'],
        "() => ".toList ++ array depth (VNode.printAll depth fallback)]).flatMap references =
      references (props.getD []) ++ (VNode.printAll depth fallback).flatMap references := by
  have hprops : references (props.getD ['{', '}']) = references (props.getD []) := by
    cases props with
    | none => decide
    | some text => rfl
  have hgap : "() => ".toList.any isNameChar = false := by decide
  cases fallback with
  | nil => cases props <;> simp [VNode.printAll]
  | cons v fallback =>
    rw [List.isEmpty_cons, if_neg Bool.false_ne_true, List.flatMap_cons, List.flatMap_singleton,
      references_gap hgap, references_array, hprops]

/-- The function that a loop calls for each item. -/
theorem references_loop {names : Text} (hnames : '_' ∉ names) (item : Text) (depth : Nat) :
    references (['('] ++ names ++ ") => \x7b\n".toList ++ indent (depth + 1) ++ "return ".toList ++
      item ++ ['\n'] ++ indent depth ++ ['}']) = references item := by
  have harrow : ") => \x7b\n".toList = [')', ' ', '=', '>', ' ', '{', '\n'] := by decide
  have hreturn : ∀ t, references ("return ".toList ++ t) = references t := by
    intro t
    have hcut : "return ".toList ++ t = "return".toList ++ ' ' :: t := by simp
    rw [hcut, references_behind (by decide) (by decide)]
  simp (disch := decide) only [harrow, List.append_assoc, List.cons_append, List.nil_append,
    references_append_cons, references_cons, references_of_not_mem hnames,
    references_indent_append, references_indent, hreturn, references_nil, List.append_nil]

/-- Two nodes and the condition that tells which of them is shown. -/
theorem references_choice {test : Text} (htest : references test = []) (yes no : Text)
    (depth : Nat) : references (['('] ++ test ++ [')', '\n'] ++ indent depth ++ ['?', ' '] ++ yes ++
      ['\n'] ++ indent depth ++ [':', ' '] ++ no) = references yes ++ references no := by
  simp (disch := decide) only [List.append_assoc, List.cons_append, List.nil_append,
    references_append_cons, references_cons, references_indent, htest]

/-- The entry of a slot. -/
theorem references_slot {name params : Text} (hname : '_' ∉ name) (hparams : '_' ∉ params)
    (children : List VNode) (depth : Nat) :
    references (Script.key name ++ [':', ' '] ++ call Helper.withCtx.localName
      [['('] ++ params ++ ") => ".toList ++ array depth (VNode.printAll depth children)]) =
      Helper.withCtx.localName :: (VNode.printAll depth children).flatMap references := by
  rw [List.append_assoc, List.cons_append, references_append_cons (by decide), List.cons_append,
    references_cons (by decide), List.nil_append, references_key hname, references_helper,
    List.flatMap_singleton, references_arrow hparams, references_array]
  rfl

end Contents

mutual

/-- The references in the code of a node tally with its helpers and components. -/
theorem VNode.tally : ∀ {v : VNode}, v.All quietParts → ∀ depth,
    Tally (references (v.print depth)) v.helpers v.components
  | .text run, hrun, depth => by
    rw [VNode.print, references_helper, List.flatMap_singleton]
    exact (tally_run hrun).cons .createTextVNode
  | .leaf tag props, ⟨htag, hprops⟩, depth => by
    have hnone : Tally (references (Option.getD none [])) [] [] := .nil
    have hall := tally_element htag hprops depth none hnone
    rwa [List.append_nil] at hall
  | .labelled tag props run, ⟨htag, hprops, hrun⟩, depth =>
    tally_element htag hprops depth (some (printRun run)) (tally_run hrun)
  | .parent tag props children, ⟨htag, hprops, hchildren⟩, depth => by
    have hall := VNode.tally_all hchildren depth
    rw [← references_array depth] at hall
    exact tally_element htag hprops depth (some _) hall
  | .component target props slots, ⟨htarget, hprops, hslots⟩, depth => by
    have hobject := (VNode.tally_slots hslots (depth + 1)).of_mem_iff fun _ =>
      mem_references_slotsObject depth _
    have hall := ((htarget.tally.append (hprops.tally depth)).append hobject).cons .createVNode
    rw [List.append_nil] at hall
    rw [VNode.print, references_create]
    exact hall
  | .outlet name props fallback, ⟨hname, hprops, hfallback⟩, depth => by
    have hslots : references "_ctx.$slots".toList = [] := by decide
    have hall := ((hname.tally.append (hprops.tally depth)).append
      (VNode.tally_all hfallback depth)).cons .renderSlot
    rw [VNode.print, references_helper, List.flatMap_append, references_fallback, List.flatMap_cons,
      List.flatMap_singleton, hslots, List.nil_append, printAll_eq_map, List.flatMap_map,
      ← List.append_assoc]
    rw [printAll_eq_map, List.flatMap_map] at hall
    exact hall
  | .fragment children, hchildren, depth => by
    have hall := VNode.tally_all hchildren depth
    rw [VNode.print, references_group, references_array]
    exact ((hall.cons .createVNode).cons .fragment).of_mem_iff fun _ => by simp [or_left_comm]
  | .list source names item, ⟨⟨hsource, hnames⟩, hitem⟩, depth => by
    have hall := ((VNode.tally (v := item) hitem (depth + 1)).cons .createVNode).cons .renderList
    rw [VNode.print, references_group, references_helper, List.flatMap_cons, List.flatMap_singleton,
      hsource, List.nil_append, references_loop hnames]
    exact (hall.cons .fragment).of_mem_iff fun _ => by simp; tauto
  | .chain body, hbody, depth => VNode.tally (v := body) hbody (depth + 1)
  | .choice test yes no, ⟨htest, hyes, hno⟩, depth => by
    have hall := (VNode.tally (v := no) hno depth).append (VNode.tally (v := yes) hyes depth)
    rw [VNode.print, references_choice htest]
    exact hall.of_mem_iff fun _ => by simp [or_comm]
  | .hidden, _, depth => by
    have harguments : ["\"v-if\"".toList, "true".toList].flatMap references = [] := by decide
    rw [VNode.print, references_helper, harguments]
    exact Tally.nil.cons .createCommentVNode

/-- So do those in the codes of nodes. -/
theorem VNode.tally_all : ∀ {vs : List VNode}, VNode.AllIn quietParts vs → ∀ depth,
    Tally ((VNode.printAll depth vs).flatMap references) (VNode.helpersAll vs)
      (VNode.componentsAll vs)
  | [], _, _ => .nil
  | _ :: _, ⟨hv, hvs⟩, depth => (VNode.tally hv depth).append (VNode.tally_all hvs depth)

/-- So do those in the entries of slots. -/
theorem VNode.tally_slots : ∀ {slots : List (Slot VNode)}, VNode.AllInSlots quietParts slots →
    ∀ depth, Tally ((VNode.printSlots depth slots).flatMap fun entry => references entry.2)
      (VNode.helpersSlots slots) (VNode.componentsSlots slots)
  | [], _, _ => .nil
  | ⟨name, params, children, implicit⟩ :: slots, ⟨⟨hname, hparams⟩, hchildren, hslots⟩, depth => by
    have hall := ((VNode.tally_all hchildren depth).append
      (VNode.tally_slots hslots depth)).cons .withCtx
    rw [VNode.printSlots, List.flatMap_cons, references_slot hname hparams]
    exact hall

end

end ModuleServer.Render
