import ModuleServer.Proofs.Script.Balance
import ModuleServer.Render.Module

/-!
# Printing opens and closes nothing

What is printed puts brackets around texts that it is given, and quotes around all others. So the
code of a node is neutral if the expressions and the parameters in it are: there is one lemma for
each construct, from the values of the props (`Value.neutral_listener`, `Assignment.neutral_print?`)
over the nodes (`VNode.IsNeutral`) to the code of a template (`balanced_ofRoots`).
-/

namespace ModuleServer.Render

open Text Script

/-! ## Brackets -/

section Brackets

variable {function : Text} {items : List Text}

theorem neutral_localName (h : Helper) : Neutral h.localName :=
  .plain (by cases h <;> decide)

theorem neutral_separator : Neutral [',', ' '] :=
  .plain (by decide)

theorem neutral_space : Neutral [' '] :=
  .plain (by decide)

theorem neutral_break : Neutral ['\n'] :=
  .plain (by decide)

theorem neutral_colon : Neutral [':', ' '] :=
  .plain (by decide)

theorem neutral_indent (depth : Nat) : Neutral (indent depth) := by
  refine neutral_white ?_
  rw [indent, List.all_eq_true]
  intro c hc
  rw [List.eq_of_mem_replicate hc]
  rfl

theorem neutral_call (hfunction : Neutral function) (h : ∀ t ∈ items, Neutral t) :
    Neutral (call function items) := by
  have hitems : Neutral ('(' :: (joined [',', ' '] items ++ [')'])) :=
    (Neutral.joined neutral_separator h).round
  rw [call, List.append_assoc, List.append_assoc]
  exact hfunction.append hitems

theorem neutral_helper (helper : Helper) (h : ∀ t ∈ items, Neutral t) :
    Neutral (call helper.localName items) :=
  neutral_call (neutral_localName helper) h

theorem neutral_shortArray (h : ∀ t ∈ items, Neutral t) : Neutral (shortArray items) :=
  (Neutral.joined neutral_separator h).square

/-- Items on lines of their own, as they stand between the brackets of a block. -/
theorem neutral_lines (depth : Nat) (h : ∀ t ∈ items, Neutral t) :
    Neutral ('\n' :: (joined [',', '\n'] (items.map fun item => indent (depth + 1) ++ item) ++
      ['\n'] ++ indent depth)) := by
  have hlines : ∀ t ∈ items.map fun item => indent (depth + 1) ++ item, Neutral t := by
    intro t ht
    obtain ⟨item, hitem, rfl⟩ := List.mem_map.1 ht
    exact (neutral_indent _).append (h item hitem)
  have hjoined := Neutral.joined (.plain (by decide) : Neutral [',', '\n']) hlines
  exact neutral_break.append ((hjoined.append neutral_break).append (neutral_indent depth))

theorem neutral_squareBlock (depth : Nat) (h : ∀ t ∈ items, Neutral t) :
    Neutral (block '[' ']' depth items) :=
  (neutral_lines depth h).square

theorem neutral_curlyBlock (depth : Nat) (h : ∀ t ∈ items, Neutral t) :
    Neutral (block '{' '}' depth items) :=
  (neutral_lines depth h).curly

theorem neutral_array (depth : Nat) (h : ∀ t ∈ items, Neutral t) :
    Neutral (array depth items) := by
  rw [array]
  split
  · exact Neutral.nil.square
  · exact neutral_squareBlock depth h

theorem neutral_object (depth : Nat) (h : ∀ t ∈ items, Neutral t) :
    Neutral (object depth items) := by
  rw [object]
  split
  · have hline := (neutral_space.append (Neutral.joined neutral_separator h)).append neutral_space
    simpa using hline.curly
  · exact neutral_curlyBlock depth h

end Brackets

/-! ## Props -/

theorem neutral_evaluate {exp : Text} (h : Neutral exp) :
    Neutral (Reaction.evaluate exp).print := by
  have harrow : Neutral "$event => ".toList := .plain (by decide)
  have hcut : "$event => (".toList = "$event => ".toList ++ ['('] := by decide
  have hprint := harrow.append h.round
  show Neutral ("$event => (".toList ++ exp ++ [')'])
  rw [hcut]
  simpa using hprint

theorem neutral_nothing : Neutral Reaction.nothing.print :=
  IsBalanced.neutral (by decide)

theorem neutral_wrap (helper : Helper) (modifiers : List Text) {function : Text}
    (h : Neutral function) : Neutral (Value.wrap helper modifiers function) := by
  rw [Value.wrap]
  split
  · exact h
  · have hquotes : ∀ t ∈ modifiers.map quote, Neutral t := by
      intro t ht
      obtain ⟨m, -, rfl⟩ := List.mem_map.1 ht
      exact neutral_quote m
    exact neutral_helper helper <|
      List.forall_mem_cons.2 ⟨h, List.forall_mem_singleton.2 (neutral_shortArray hquotes)⟩

theorem Value.neutral_listener {reaction : Reaction} (guards keys : List Text)
    (h : Neutral reaction.print) : Neutral (Value.listener reaction guards keys).print :=
  neutral_wrap .withKeys keys (neutral_wrap .withModifiers guards h)

theorem Value.neutral_combine (key : Text) {old new : Value} (hold : Neutral old.print)
    (hnew : Neutral new.print) : Neutral (Value.combine key old new).print := by
  have hpair : ∀ helper : Helper,
      Neutral (call helper.localName [shortArray [old.print, new.print]]) := by
    intro helper
    have harray : Neutral (shortArray [old.print, new.print]) :=
      neutral_shortArray (List.forall_mem_cons.2 ⟨hold, List.forall_mem_singleton.2 hnew⟩)
    exact neutral_helper helper (List.forall_mem_singleton.2 harray)
  rw [Value.combine]
  split
  · exact hpair .normalizeClass
  split
  · exact hpair .normalizeStyle
  · exact hnew

/-- A contribution whose value is neutral. -/
def Assignment.IsNeutral : Assignment → Prop
  | .set _ value => Neutral value.print
  | .append _ value => Neutral value.print
  | .spread exp => Neutral exp

/-- The part that a contribution is by itself. -/
def Assignment.part : Assignment → Part
  | .set key value => .entry key value
  | .append key value => .entry key value
  | .spread exp => .spread exp

/-- A part whose value is neutral. -/
def Part.IsNeutral : Part → Prop
  | .entry _ value => Neutral value.print
  | .spread exp => Neutral exp

section Props

variable {parts : List Part} {props : List Assignment}

theorem Part.forall_set {P : Part → Prop} {key : Text} {value : Value}
    (hcombine : ∀ old, P (.entry key old) → P (.entry key (old.combine key value)))
    (hvalue : P (.entry key value)) (h : ∀ p ∈ parts, P p) :
    ∀ p ∈ Part.set key value parts, P p := by
  induction parts with
  | nil => exact List.forall_mem_singleton.2 hvalue
  | cons p parts ih =>
    obtain ⟨hp, hparts⟩ := List.forall_mem_cons.1 h
    cases p with
    | entry k v =>
      rw [Part.set]
      split
      · rename_i hkey
        subst hkey
        exact List.forall_mem_cons.2 ⟨hcombine v hp, hparts⟩
      · exact List.forall_mem_cons.2 ⟨hp, ih hparts⟩
    | spread exp => exact List.forall_mem_cons.2 ⟨hp, ih hparts⟩

/-- What holds of all contributions holds of the parts that they make, if joining two values keeps
it. -/
theorem Assignment.forall_parts {P : Part → Prop}
    (hcombine : ∀ key old new, P (.entry key old) → P (.entry key new) →
      P (.entry key (old.combine key new)))
    (h : ∀ a ∈ props, P a.part) : ∀ p ∈ Assignment.parts props, P p := by
  have hadd : ∀ {parts : List Part} {a : Assignment}, P a.part → (∀ p ∈ parts, P p) →
      ∀ p ∈ Part.add parts a, P p := by
    intro parts a ha hparts
    cases a with
    | set key value =>
      exact Part.forall_set (fun old hold => hcombine key old value hold ha) ha hparts
    | append key value => exact List.forall_mem_append.2 ⟨hparts, List.forall_mem_singleton.2 ha⟩
    | spread exp => exact List.forall_mem_append.2 ⟨hparts, List.forall_mem_singleton.2 ha⟩
  have hfold : ∀ {parts : List Part}, (∀ p ∈ parts, P p) →
      ∀ p ∈ props.foldl Part.add parts, P p := by
    induction props with
    | nil => exact id
    | cons a props ih =>
      obtain ⟨ha, hprops⟩ := List.forall_mem_cons.1 h
      exact fun hparts => ih hprops (hadd ha hparts)
  exact hfold nofun

theorem Assignment.isNeutral_parts (h : ∀ a ∈ props, a.IsNeutral) :
    ∀ p ∈ Assignment.parts props, p.IsNeutral := by
  refine Assignment.forall_parts (fun key _ _ => Value.neutral_combine key) fun a ha => ?_
  have hneutral := h a ha
  cases a <;> exact hneutral

theorem Part.neutral_arguments (depth : Nat) {run : List Text} (hrun : ∀ t ∈ run, Neutral t)
    (h : ∀ p ∈ parts, p.IsNeutral) : ∀ t ∈ Part.arguments depth run parts, Neutral t := by
  have hobject : ∀ {run : List Text}, (∀ t ∈ run, Neutral t) →
      ∀ t ∈ if run.isEmpty then [] else [object depth run.reverse], Neutral t := by
    intro run hrun
    split
    · exact nofun
    · refine List.forall_mem_singleton.2 (neutral_object depth fun t ht => ?_)
      exact hrun t (List.mem_reverse.1 ht)
  induction parts generalizing run with
  | nil => exact hobject hrun
  | cons p parts ih =>
    obtain ⟨hp, hparts⟩ := List.forall_mem_cons.1 h
    cases p with
    | entry key value =>
      have hentry := ((neutral_key key).append neutral_colon).append hp
      exact ih (List.forall_mem_cons.2 ⟨hentry, hrun⟩) hparts
    | spread exp =>
      rw [Part.arguments]
      exact List.forall_mem_append.2 ⟨hobject hrun, List.forall_mem_cons.2 ⟨hp, ih nofun hparts⟩⟩

theorem Assignment.neutral_print? (depth : Nat) (h : ∀ a ∈ props, a.IsNeutral) :
    ∀ t ∈ Assignment.print? depth props, Neutral t := by
  have harguments := Part.neutral_arguments depth (List.forall_mem_nil _)
    (Assignment.isNeutral_parts h)
  intro t ht
  rw [Assignment.print?] at ht
  split at ht
  · obtain rfl := Option.some.inj ht
    exact neutral_helper .mergeProps harguments
  · exact harguments t (List.mem_of_mem_head? ht)

end Props

/-! ## Nodes -/

section Nodes

variable {target content params source test : Text} {props : List Assignment}
  {run : List TextPart} {depth : Nat}

theorem TextPart.neutral_shown {exp : Text} (h : Neutral exp) :
    Neutral (TextPart.shown exp).print :=
  neutral_helper .toDisplayString (List.forall_mem_singleton.2 h)

theorem neutral_printRun (h : ∀ p ∈ run, Neutral p.print) : Neutral (printRun run) := by
  refine Neutral.joined (.plain (by decide)) fun t ht => ?_
  obtain ⟨p, hp, rfl⟩ := List.mem_map.1 ht
  exact h p hp

theorem neutral_componentVariable (name : Text) : Neutral (componentVariable name) := by
  refine (Neutral.plain (by decide : "_component_".toList.all Neutral.isPlain)).append (.plain ?_)
  rw [List.all_map, List.all_eq_true]
  intro c _
  rw [Function.comp_apply]
  split
  · rename_i hc
    refine isPlain_of_isPlainChar ?_
    simp only [Bool.or_eq_true, decide_eq_true_eq] at hc
    rcases hc with hc | rfl
    · simp [isPlainChar, hc]
    · rfl
  · rfl

theorem neutral_create {props content : Option Text} (htarget : Neutral target)
    (hprops : ∀ t ∈ props, Neutral t) (hcontent : ∀ t ∈ content, Neutral t) :
    Neutral (create target props content) := by
  refine neutral_helper .createVNode ?_
  have hnull : Neutral "null".toList := .plain (by decide)
  cases content with
  | none =>
    cases props with
    | none => exact List.forall_mem_singleton.2 htarget
    | some props =>
      exact List.forall_mem_cons.2 ⟨htarget, List.forall_mem_singleton.2 (hprops _ rfl)⟩
  | some content =>
    have hfilled : Neutral (props.getD "null".toList) := by
      cases props with
      | none => exact hnull
      | some props => exact hprops _ rfl
    cases props <;> exact List.forall_mem_cons.2 ⟨htarget,
      List.forall_mem_cons.2 ⟨hfilled, List.forall_mem_singleton.2 (hcontent _ rfl)⟩⟩

theorem neutral_group (h : Neutral content) : Neutral (group content) := by
  refine neutral_create (neutral_localName .fragment) nofun fun t ht => ?_
  obtain rfl := Option.some.inj ht
  exact h

/-- A node whose code is neutral, however deep it stands. -/
def VNode.IsNeutral (v : VNode) : Prop :=
  ∀ depth, Neutral (v.print depth)

/-- A slot whose parameters and nodes are neutral. -/
structure Slot.IsNeutral (slot : Slot VNode) : Prop where
  /-- The parameters stand in brackets. -/
  params : Neutral ('(' :: (slot.params ++ [')']))
  /-- The nodes. -/
  children : ∀ v ∈ slot.children, v.IsNeutral

theorem VNode.neutral_printAll {vs : List VNode} (h : ∀ v ∈ vs, v.IsNeutral) :
    ∀ t ∈ VNode.printAll depth vs, Neutral t := by
  induction vs with
  | nil => exact nofun
  | cons v vs ih =>
    obtain ⟨hv, hvs⟩ := List.forall_mem_cons.1 h
    exact List.forall_mem_cons.2 ⟨hv depth, ih hvs⟩

theorem neutral_arrayOf {vs : List VNode} (h : ∀ v ∈ vs, v.IsNeutral) :
    Neutral (array depth (VNode.printAll depth vs)) :=
  neutral_array depth (VNode.neutral_printAll h)

/-- A function of one expression. -/
theorem neutral_arrow (hparams : Neutral ('(' :: (params ++ [')']))) (hcontent : Neutral content) :
    Neutral (['('] ++ params ++ ") => ".toList ++ content) := by
  have harrow : Neutral " => ".toList := .plain (by decide)
  have hcut : ") => ".toList = ')' :: " => ".toList := by decide
  have hall := (hparams.append harrow).append hcontent
  rw [hcut]
  simpa using hall

theorem VNode.neutral_printSlots {slots : List (Slot VNode)} (h : ∀ slot ∈ slots, slot.IsNeutral) :
    ∀ entry ∈ VNode.printSlots depth slots, Neutral entry.2 := by
  induction slots with
  | nil => exact nofun
  | cons slot slots ih =>
    obtain ⟨hslot, hslots⟩ := List.forall_mem_cons.1 h
    have hchildren : Neutral (array depth (VNode.printAll depth slot.children)) :=
      neutral_arrayOf hslot.children
    have hcall := neutral_helper .withCtx
      (List.forall_mem_singleton.2 (neutral_arrow hslot.params hchildren))
    exact List.forall_mem_cons.2 ⟨((neutral_key _).append neutral_colon).append hcall, ih hslots⟩

theorem neutral_slotsObject {entries : List (Bool × Text)} (h : ∀ e ∈ entries, Neutral e.2) :
    ∀ t ∈ slotsObject depth entries, Neutral t := by
  have hflag : Neutral "_: 1 /* STABLE */".toList := .plain (by decide)
  have horder : ∀ t ∈ orderSlots entries, Neutral t := by
    intro t ht
    rcases List.mem_append.1 ht with ht | ht
    · obtain ⟨e, he, rfl⟩ := List.mem_map.1 ht
      exact h e (List.mem_filter.1 he).1
    · obtain ⟨e, he, rfl⟩ := List.mem_map.1 ht
      exact h e (List.mem_filter.1 he).1
  intro t ht
  rw [slotsObject] at ht
  split at ht
  · cases ht
  · obtain rfl := Option.some.inj ht
    exact neutral_curlyBlock depth
      (List.forall_mem_append.2 ⟨horder, List.forall_mem_singleton.2 hflag⟩)

namespace VNode.IsNeutral

variable {children : List VNode} {item yes no body : VNode}

theorem text (h : ∀ p ∈ run, Neutral p.print) : (VNode.text run).IsNeutral :=
  fun _ => neutral_helper .createTextVNode (List.forall_mem_singleton.2 (neutral_printRun h))

/-- A native element with any content that is neutral. -/
theorem element (tag : Text) {content : Option Text} (hprops : ∀ a ∈ props, a.IsNeutral)
    (hcontent : ∀ t ∈ content, Neutral t) :
    Neutral (create (quote tag) (Assignment.print? depth props) content) :=
  neutral_create (neutral_quote tag) (Assignment.neutral_print? depth hprops) hcontent

theorem leaf (tag : Text) (hprops : ∀ a ∈ props, a.IsNeutral) : (VNode.leaf tag props).IsNeutral :=
  fun _ => element tag hprops nofun

theorem labelled (tag : Text) (hprops : ∀ a ∈ props, a.IsNeutral)
    (hrun : ∀ p ∈ run, Neutral p.print) : (VNode.labelled tag props run).IsNeutral := by
  refine fun _ => element tag hprops fun t ht => ?_
  obtain rfl := Option.some.inj ht
  exact neutral_printRun hrun

theorem parent (tag : Text) (hprops : ∀ a ∈ props, a.IsNeutral)
    (h : ∀ v ∈ children, v.IsNeutral) : (VNode.parent tag props children).IsNeutral := by
  refine fun _ => element tag hprops fun t ht => ?_
  obtain rfl := Option.some.inj ht
  exact neutral_arrayOf h

theorem component {target : Target} {slots : List (Slot VNode)} (htarget : Neutral target.print)
    (hprops : ∀ a ∈ props, a.IsNeutral) (hslots : ∀ slot ∈ slots, slot.IsNeutral) :
    (VNode.component target props slots).IsNeutral :=
  fun depth => neutral_create htarget (Assignment.neutral_print? depth hprops)
    (neutral_slotsObject (neutral_printSlots hslots))

theorem outlet {name : Value} (hname : Neutral name.print) (hprops : ∀ a ∈ props, a.IsNeutral)
    (h : ∀ v ∈ children, v.IsNeutral) : (VNode.outlet name props children).IsNeutral := by
  intro depth
  have hslots : Neutral "_ctx.$slots".toList := .plain (by decide)
  have hprint := Assignment.neutral_print? depth hprops
  rw [VNode.print]
  refine neutral_helper .renderSlot (List.forall_mem_append.2 ⟨?_, ?_⟩)
  · exact List.forall_mem_cons.2 ⟨hslots, List.forall_mem_singleton.2 hname⟩
  split
  · intro t ht
    exact hprint t (Option.mem_toList.1 ht)
  · refine List.forall_mem_cons.2 ⟨?_, List.forall_mem_singleton.2 ?_⟩
    · cases hprops : Assignment.print? depth props with
      | none => exact Neutral.nil.curly
      | some t => exact hprint t hprops
    · exact neutral_arrow Neutral.nil.round (neutral_arrayOf h)

theorem fragment (h : ∀ v ∈ children, v.IsNeutral) : (VNode.fragment children).IsNeutral :=
  fun _ => neutral_group (neutral_arrayOf h)

theorem list (hsource : Neutral source) (hparams : Neutral ('(' :: (params ++ [')'])))
    (hitem : item.IsNeutral) : (VNode.list source params item).IsNeutral := by
  intro depth
  have hreturn : Neutral "return ".toList := .plain (by decide)
  have hbody := (((((neutral_break.append (neutral_indent (depth + 1))).append hreturn).append
    (hitem (depth + 1))).append neutral_break).append (neutral_indent depth)).curly
  have harrow := neutral_arrow hparams hbody
  have hcut : ") => \x7b\n".toList = ") => ".toList ++ ['{', '\n'] := by decide
  rw [VNode.print, hcut]
  refine neutral_group (neutral_helper .renderList (List.forall_mem_cons.2 ⟨hsource, ?_⟩))
  refine List.forall_mem_singleton.2 ?_
  simpa using harrow

theorem chain (h : body.IsNeutral) : (VNode.chain body).IsNeutral :=
  fun depth => h (depth + 1)

theorem choice (htest : Neutral test) (hyes : yes.IsNeutral) (hno : no.IsNeutral) :
    (VNode.choice test yes no).IsNeutral := by
  intro depth
  have hthen : Neutral ['?', ' '] := .plain (by decide)
  have hfirst := (htest.round.append neutral_break).append (neutral_indent depth)
  have hsecond := (hthen.append (hyes depth)).append (neutral_break.append (neutral_indent depth))
  have hall := hfirst.append (hsecond.append (neutral_colon.append (hno depth)))
  rw [VNode.print]
  simpa using hall

theorem hidden : VNode.hidden.IsNeutral := by
  refine fun _ => neutral_helper .createCommentVNode (List.forall_mem_cons.2 ⟨?_, ?_⟩)
  · exact IsBalanced.neutral (by decide)
  · exact List.forall_mem_singleton.2 (.plain (by decide))

end VNode.IsNeutral

end Nodes

/-! ## Templates -/

section Templates

variable {roots : List VNode} {root : Text}

theorem neutral_printRoots (h : ∀ v ∈ roots, v.IsNeutral) : Neutral (printRoots roots) := by
  cases roots with
  | nil => exact .plain (by decide)
  | cons root roots =>
    cases roots with
    | nil => exact h root (List.mem_singleton.2 rfl) 1
    | cons => exact neutral_group (neutral_arrayOf h)

theorem neutral_componentLine (name : Text) : Neutral (componentLine name) := by
  have hconst : Neutral "  const ".toList := .plain (by decide)
  have hequals : Neutral " = ".toList := .plain (by decide)
  have hcall := neutral_helper .resolveComponent (List.forall_mem_singleton.2 (neutral_quote name))
  exact (((hconst.append (neutral_componentVariable name)).append hequals).append hcall).append
    neutral_break

theorem neutral_functionBody (components : List Text) (hroot : Neutral root) :
    Neutral (functionBody components root) := by
  have hlines : Neutral (components.flatMap componentLine) := by
    induction components with
    | nil => exact .nil
    | cons name components ih => exact (neutral_componentLine name).append ih
  have hblank : Neutral (if components.isEmpty then [] else ['\n']) := by
    split
    · exact .nil
    · exact neutral_break
  have hreturn : Neutral "  return ".toList := .plain (by decide)
  exact (((hlines.append hblank).append hreturn).append hroot).append neutral_break

theorem neutral_name (h : Helper) : Neutral h.name :=
  .plain (by cases h <;> decide)

/-- The names of helpers, each with its local one, between brackets. -/
theorem neutral_helperNames (helpers : List Helper) {separator : Text}
    (hseparator : Neutral separator) :
    Neutral ('{' :: (' ' :: joined [',', ' ']
      (helpers.map fun h => h.name ++ separator ++ h.localName) ++ [' '] ++ ['}'])) := by
  have hnames : ∀ t ∈ helpers.map fun h => h.name ++ separator ++ h.localName, Neutral t := by
    intro t ht
    obtain ⟨h, -, rfl⟩ := List.mem_map.1 ht
    exact ((neutral_name h).append hseparator).append (neutral_localName h)
  have hjoined := Neutral.joined neutral_separator hnames
  exact ((neutral_space.append hjoined).append neutral_space).curly

theorem neutral_helperLine (mode : Mode) (helpers : List Helper) :
    Neutral (helperLine mode helpers) := by
  unfold helperLine
  split
  · exact .nil
  cases mode with
  | module =>
    have hfirst : Neutral "import ".toList := .plain (by decide)
    have hnames := neutral_helperNames helpers (.plain (by decide) : Neutral " as ".toList)
    have hfrom : Neutral " from ".toList := .plain (by decide)
    have hlast : Neutral ['\n', '\n'] := .plain (by decide)
    have hall := (hfirst.append hnames).append ((hfrom.append (neutral_quote runtimeModule)).append
      hlast)
    have hopen : "import \x7b ".toList = "import ".toList ++ ['{', ' '] := by decide
    have hclose : " \x7d from ".toList = [' ', '}'] ++ " from ".toList := by decide
    rw [hopen, hclose]
    simpa using hall
  | function =>
    have hfirst : Neutral "const ".toList := .plain (by decide)
    have hnames := neutral_helperNames helpers neutral_colon
    have hlast : Neutral (" = Vue".toList ++ ['\n', '\n']) := .plain (by decide)
    have hall := (hfirst.append hnames).append hlast
    have hopen : "const \x7b ".toList = "const ".toList ++ ['{', ' '] := by decide
    have hclose : " \x7d = Vue".toList = [' ', '}'] ++ " = Vue".toList := by decide
    rw [hopen, hclose]
    simpa using hall

/-- The code of neutral nodes is balanced, in either form. -/
theorem balanced_ofRoots (mode : Mode) (h : ∀ v ∈ roots, v.IsNeutral) :
    IsBalanced (RenderCode.ofRoots mode roots).code := by
  have hword : Neutral (functionWord mode) := .plain (by cases mode <;> decide)
  have hhead : Neutral " function render(_ctx, _cache) ".toList := IsBalanced.neutral (by decide)
  have hbody := neutral_functionBody (VNode.componentsAll roots).eraseDups (neutral_printRoots h)
  have hall := (neutral_helperLine mode (Helper.ordered (rootHelpers roots))).append
    (((hword.append hhead).append (neutral_break.append hbody).curly).append neutral_break)
  have hcut : " function render(_ctx, _cache) \x7b\n".toList =
      " function render(_ctx, _cache) ".toList ++ ['{', '\n'] := by decide
  refine Neutral.balanced ?_
  rw [RenderCode.ofRoots, hcut]
  simpa using hall

end Templates

end ModuleServer.Render
