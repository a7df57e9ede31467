import Mathlib.Data.List.TakeWhile
import ModuleServer.Proofs.Render.Given
import ModuleServer.Proofs.Render.Whole

/-!
# Siblings and their code

The nodes inside of an element are grouped from left to right (`Grouping`): a condition with the
alternatives behind it, a longest run of texts and interpolations, or an element by itself. There is
one such grouping, and each group of it is written as one expression, in order
(`buildSiblings_grouped`). An alternative without a condition is an error, unless an expression
before it cannot be read.
-/

namespace ModuleServer.Render

open Text Template
open List (Forall₂)

/-! ## Groups of nodes -/

/-- An element among its siblings. -/
structure Member where
  /-- Opening tag. -/
  tag : Tag
  /-- What stands in it. -/
  children : List Node
  /-- Place in the markup. -/
  span : Span

/-- The node that an element is. -/
def Member.node (m : Member) : Node :=
  .element m.tag m.children m.span

/-- Nodes that become one expression. -/
inductive NodeGroup where
  /-- An element with a condition, those with further conditions, and the one that is shown
  otherwise, if there is one. -/
  | chain (first : Member) (others : List Member) (otherwise : Option Member)
  /-- An alternative that follows no condition. -/
  | stray (m : Member)
  /-- An element by itself. -/
  | single (m : Member)
  /-- Texts and interpolations. -/
  | run (nodes : List Node)

/-- The directives that tie an element to its siblings. -/
def branchDirectives : List Text :=
  ["if", "else-if", "else"].map String.toList

/-- A tag with one of these directives at most. -/
def HasOneBranch (tag : Tag) : Prop :=
  ∀ a ∈ branchDirectives, ∀ b ∈ branchDirectives, tag.has a → tag.has b → a = b

instance (tag : Tag) : Decidable (HasOneBranch tag) :=
  inferInstanceAs (Decidable (∀ a ∈ branchDirectives, ∀ b ∈ branchDirectives,
    tag.has a → tag.has b → a = b))

/-- Behind white space only, an element with a directive follows. -/
def Follows (name : Text) (nodes : List Node) (m : Member) (rest : List Node) : Prop :=
  ∃ blanks, nodes = blanks ++ m.node :: rest ∧ (∀ b ∈ blanks, b.isBlank) ∧ m.tag.has name

/-- The alternatives that follow a condition: as many further conditions as there are, and then at
most one element that is shown otherwise. -/
inductive Alternatives : List Node → List Member → Option Member → List Node → Prop where
  | elseIf {nodes between rest : List Node} {m : Member} {others : List Member}
      {otherwise : Option Member} (h : Follows "else-if".toList nodes m between)
      (hothers : Alternatives between others otherwise rest) :
      Alternatives nodes (m :: others) otherwise rest
  | otherwise {nodes rest : List Node} {m : Member} (h : Follows "else".toList nodes m rest) :
      Alternatives nodes [] (some m) rest
  | none {nodes : List Node} (helseIf : ∀ m rest, ¬Follows "else-if".toList nodes m rest)
      (helse : ∀ m rest, ¬Follows "else".toList nodes m rest) : Alternatives nodes [] none nodes

/-- The groups of nodes, from left to right. -/
inductive Grouping : List Node → List NodeGroup → Prop where
  | nil : Grouping [] []
  | chain {m : Member} {nodes rest : List Node} {others : List Member} {otherwise : Option Member}
      {groups : List NodeGroup} (hif : m.tag.has "if".toList)
      (hothers : Alternatives nodes others otherwise rest) (hrest : Grouping rest groups) :
      Grouping (m.node :: nodes) (.chain m others otherwise :: groups)
  | stray {m : Member} {nodes : List Node} {groups : List NodeGroup}
      (hif : m.tag.has "if".toList = false) (halternative : isAlternative m.tag)
      (hrest : Grouping nodes groups) : Grouping (m.node :: nodes) (.stray m :: groups)
  | single {m : Member} {nodes : List Node} {groups : List NodeGroup}
      (hif : m.tag.has "if".toList = false) (halternative : isAlternative m.tag = false)
      (hrest : Grouping nodes groups) : Grouping (m.node :: nodes) (.single m :: groups)
  | run {nodes run rest : List Node} {groups : List NodeGroup} (hnodes : nodes = run ++ rest)
      (hne : run ≠ []) (hrun : ∀ n ∈ run, n.isElement = false)
      (hlongest : ∀ n ∈ rest.head?, n.isElement) (hrest : Grouping rest groups) :
      Grouping nodes (.run run :: groups)

/-! ## The code of groups -/

section Code

variable (locals : List Text) (depth : Nat)

/-- The code of an element in the context. -/
def Member.Prints (m : Member) (code : Text) : Prop :=
  ∃ v, buildElement m.tag m.span (Sibling.ofNodes m.children) locals = .ok v ∧
    code = VNode.print depth v

/-- The expression of a directive of an element, in the context. -/
def Member.Tests (name : Text) (m : Member) (test : Text) : Prop :=
  ∃ d exp, m.tag.directive? name = some d ∧ d.exp = some exp ∧
    Expression.prefixNames? locals exp = some test

/-- A condition with what is shown if it is the first that holds. -/
def Member.Branches (name : Text) (m : Member) (branch : Text × Text) : Prop :=
  m.Tests locals name branch.1 ∧ m.Prints locals depth branch.2

/-- What a chain shows if no condition holds: an element, or a comment. -/
def PrintsOtherwise (otherwise : Option Member) (code : Text) : Prop :=
  match otherwise with
  | some m => m.Prints locals depth code
  | none => code = "_createCommentVNode(\"v-if\", true)".toList

/-- Conditions, each with what is shown if it is the first that holds, and what is shown if none
does. -/
def ternary (pad otherwise : Text) : List (Text × Text) → Text
  | [] => otherwise
  | (test, shown) :: branches =>
    ['('] ++ test ++ [')', '\n'] ++ pad ++ ['?', ' '] ++ shown ++ ['\n'] ++ pad ++ [':', ' '] ++
      ternary pad otherwise branches

/-- The code of a part of a run. -/
inductive PrintsPart : Node → Text → Prop where
  | text (content : Text) (span : Span) : PrintsPart (.text content span) (Script.quote content)
  | shown {exp e : Text} (span : Span) (he : Expression.prefixNames? locals exp = some e) :
      PrintsPart (.interpolation exp span) ("_toDisplayString(".toList ++ e ++ [')'])

/-- The code of a group. -/
inductive Written : NodeGroup → Text → Prop where
  | chain {first : Member} {others : List Member} {otherwise : Option Member} {branch : Text × Text}
      {branches : List (Text × Text)} {last : Text}
      (hfirst : first.Branches locals (depth + 1) "if".toList branch)
      (hothers : Forall₂ (Member.Branches locals (depth + 1) "else-if".toList) others branches)
      (hlast : PrintsOtherwise locals (depth + 1) otherwise last) :
      Written (.chain first others otherwise)
        (ternary (indent (depth + 1)) last (branch :: branches))
  | single {m : Member} {code : Text} (h : m.Prints locals depth code) : Written (.single m) code
  | run {nodes : List Node} {parts : List Text} (h : Forall₂ (PrintsPart locals) nodes parts) :
      Written (.run nodes) ("_createTextVNode(".toList ++ joined [' ', '+', ' '] parts ++ [')'])

end Code

/-! ## There is one grouping -/

theorem isElement_of_isBlank {node : Node} (h : node.isBlank) : node.isElement = false := by
  cases node with
  | element => cases h
  | text | interpolation => rfl

/-- The first element behind white space is one. -/
theorem first_unique {m m' : Member} {blanks blanks' rest rest' : List Node}
    (hblanks : ∀ b ∈ blanks, b.isBlank) (hblanks' : ∀ b ∈ blanks', b.isBlank)
    (h : blanks ++ m.node :: rest = blanks' ++ m'.node :: rest') : m = m' ∧ rest = rest' := by
  induction blanks generalizing blanks' with
  | nil =>
    cases blanks' with
    | nil =>
      obtain ⟨hnode, hrest⟩ := List.cons.inj h
      cases m
      cases m'
      cases hnode
      exact ⟨rfl, hrest⟩
    | cons b' blanks' =>
      obtain ⟨rfl, -⟩ := List.cons.inj h
      cases hblanks' _ List.mem_cons_self
  | cons b blanks ih =>
    cases blanks' with
    | nil =>
      obtain ⟨rfl, -⟩ := List.cons.inj h
      cases hblanks _ List.mem_cons_self
    | cons b' blanks' =>
      exact ih (List.forall_mem_cons.1 hblanks).2 (List.forall_mem_cons.1 hblanks').2
        (List.cons.inj h).2

section Follows

variable {name name' : Text} {nodes rest rest' : List Node} {m m' : Member}

theorem Follows.unique (h : Follows name nodes m rest) (h' : Follows name' nodes m' rest') :
    m = m' ∧ rest = rest' := by
  obtain ⟨blanks, rfl, hblanks, -⟩ := h
  obtain ⟨blanks', heq, hblanks', -⟩ := h'
  exact first_unique hblanks hblanks' heq

theorem Follows.mem (h : Follows name nodes m rest) : m.node ∈ nodes := by
  obtain ⟨blanks, rfl, -⟩ := h
  exact List.mem_append_right _ List.mem_cons_self

theorem Follows.suffix (h : Follows name nodes m rest) : rest <:+ nodes := by
  obtain ⟨blanks, rfl, -⟩ := h
  exact (List.suffix_cons _ _).trans (List.suffix_append _ _)

/-- No element is a further condition and shown otherwise at once. -/
theorem Follows.not_both (hone : ∀ m : Member, m.node ∈ nodes → HasOneBranch m.tag)
    (h : Follows "else-if".toList nodes m rest) (h' : Follows "else".toList nodes m' rest') :
    False := by
  obtain ⟨rfl, rfl⟩ := h.unique h'
  obtain ⟨-, -, -, helseIf⟩ := id h
  obtain ⟨-, -, -, helse⟩ := h'
  exact absurd (hone m h.mem _ (by decide) _ (by decide) helseIf helse) (by decide)

end Follows

theorem Alternatives.suffix {nodes rest : List Node} {others : List Member}
    {otherwise : Option Member} (h : Alternatives nodes others otherwise rest) :
    rest <:+ nodes := by
  induction h with
  | elseIf h _ ih => exact ih.trans h.suffix
  | otherwise h => exact h.suffix
  | none => exact List.suffix_rfl

theorem Alternatives.unique {nodes rest rest' : List Node} {others others' : List Member}
    {otherwise otherwise' : Option Member}
    (hone : ∀ m : Member, m.node ∈ nodes → HasOneBranch m.tag)
    (h : Alternatives nodes others otherwise rest)
    (h' : Alternatives nodes others' otherwise' rest') :
    others = others' ∧ otherwise = otherwise' ∧ rest = rest' := by
  induction h generalizing others' with
  | elseIf h _ ih =>
    cases h' with
    | elseIf h' hothers' =>
      obtain ⟨rfl, rfl⟩ := h.unique h'
      obtain ⟨rfl, hrest⟩ := ih (fun m hm => hone m (h.suffix.mem hm)) hothers'
      exact ⟨rfl, hrest⟩
    | otherwise h' => exact (h.not_both hone h').elim
    | none helseIf _ => exact absurd h (helseIf _ _)
  | otherwise h =>
    cases h' with
    | elseIf h' _ => exact (h'.not_both hone h).elim
    | otherwise h' =>
      obtain ⟨rfl, rfl⟩ := h.unique h'
      exact ⟨rfl, rfl, rfl⟩
    | none _ helse => exact absurd h (helse _ _)
  | none helseIf helse =>
    cases h' with
    | elseIf h' _ => exact absurd h' (helseIf _ _)
    | otherwise h' => exact absurd h' (helse _ _)
    | none => exact ⟨rfl, rfl, rfl⟩

theorem Member.node_injective {m m' : Member} (h : m.node = m'.node) : m = m' := by
  cases m
  cases m'
  cases h
  rfl

/-- A run does not start with an element. -/
theorem head_run {m : Member} {nodes run rest : List Node} (hnodes : m.node :: nodes = run ++ rest)
    (hne : run ≠ []) (hrun : ∀ n ∈ run, n.isElement = false) : False := by
  cases run with
  | nil => exact hne rfl
  | cons n run =>
    obtain ⟨rfl, -⟩ := List.cons.inj hnodes
    cases hrun _ List.mem_cons_self

/-- There is one longest run. -/
theorem run_unique {run run' rest rest' : List Node} (h : run ++ rest = run' ++ rest')
    (hrun : ∀ n ∈ run, n.isElement = false) (hrun' : ∀ n ∈ run', n.isElement = false)
    (hlongest : ∀ n ∈ rest.head?, n.isElement) (hlongest' : ∀ n ∈ rest'.head?, n.isElement) :
    run = run' ∧ rest = rest' := by
  have hends : ∀ run rest : List Node, (∀ n ∈ run, n.isElement = false) →
      (∀ n ∈ rest.head?, n.isElement) → (run ++ rest).takeWhile (fun n => !n.isElement) = run := by
    intro run rest hrun hlongest
    rw [List.takeWhile_append_of_pos fun n hn => by rw [hrun n hn]; rfl]
    cases rest with
    | nil => exact List.append_nil run
    | cons n rest => rw [List.takeWhile_cons_of_neg (by simp [hlongest n rfl]), List.append_nil]
  have heq : run = run' := by
    rw [← hends run rest hrun hlongest, h, hends run' rest' hrun' hlongest']
  exact ⟨heq, List.append_cancel_left (heq ▸ h)⟩

/-- Where an element is first, it is in the first group. -/
theorem Grouping.cases_node {m : Member} {nodes : List Node} {groups : List NodeGroup}
    (h : Grouping (m.node :: nodes) groups) :
    (m.tag.has "if".toList ∧ ∃ others otherwise rest gs,
      Alternatives nodes others otherwise rest ∧ Grouping rest gs ∧
        groups = .chain m others otherwise :: gs) ∨
    (m.tag.has "if".toList = false ∧ ∃ gs, Grouping nodes gs ∧
      groups = (if isAlternative m.tag then .stray m else .single m) :: gs) := by
  generalize hall : m.node :: nodes = all at h
  cases h with
  | nil => cases hall
  | chain hif hothers hrest =>
    obtain ⟨hnode, rfl⟩ := List.cons.inj hall
    obtain rfl := Member.node_injective hnode
    exact .inl ⟨hif, _, _, _, _, hothers, hrest, rfl⟩
  | stray hif halternative hrest =>
    obtain ⟨hnode, rfl⟩ := List.cons.inj hall
    obtain rfl := Member.node_injective hnode
    exact .inr ⟨hif, _, hrest, by rw [if_pos halternative]⟩
  | single hif halternative hrest =>
    obtain ⟨hnode, rfl⟩ := List.cons.inj hall
    obtain rfl := Member.node_injective hnode
    exact .inr ⟨hif, _, hrest, by rw [if_neg (Bool.eq_false_iff.1 halternative)]⟩
  | run heq hne hrun => exact (head_run (hall.trans heq) hne hrun).elim

/-- Nodes whose elements are tied to their siblings in one way at most have one grouping. -/
theorem Grouping.unique {nodes : List Node} {groups groups' : List NodeGroup}
    (hone : ∀ m : Member, m.node ∈ nodes → HasOneBranch m.tag) (h : Grouping nodes groups)
    (h' : Grouping nodes groups') : groups = groups' := by
  induction h generalizing groups' with
  | nil =>
    cases h' with
    | nil => rfl
    | run hnodes hne => exact absurd (List.append_eq_nil_iff.1 hnodes.symm).1 hne
  | chain hif hothers _ ih =>
    have hnodes := fun m hm => hone m (List.mem_cons_of_mem _ hm)
    obtain ⟨-, others', otherwise', rest', gs, hothers', hrest', rfl⟩ | ⟨hif', -⟩ := h'.cases_node
    · obtain ⟨rfl, rfl, rfl⟩ := hothers.unique hnodes hothers'
      rw [ih (fun m hm => hnodes m (hothers.suffix.mem hm)) hrest']
    · exact absurd (hif.symm.trans hif') Bool.noConfusion
  | stray hif halternative _ ih =>
    obtain ⟨hif', -⟩ | ⟨-, gs, hrest', rfl⟩ := h'.cases_node
    · exact absurd (hif'.symm.trans hif) Bool.noConfusion
    · rw [if_pos halternative, ih (fun m hm => hone m (List.mem_cons_of_mem _ hm)) hrest']
  | single hif halternative _ ih =>
    obtain ⟨hif', -⟩ | ⟨-, gs, hrest', rfl⟩ := h'.cases_node
    · exact absurd (hif'.symm.trans hif) Bool.noConfusion
    · rw [if_neg (Bool.eq_false_iff.1 halternative),
        ih (fun m hm => hone m (List.mem_cons_of_mem _ hm)) hrest']
  | @run nodes run rest groups hnodes hne hrun hlongest _ ih =>
    cases h' with
    | nil => exact absurd (List.append_eq_nil_iff.1 hnodes.symm).1 hne
    | chain | stray | single => exact (head_run hnodes hne hrun).elim
    | run hnodes' _ hrun' hlongest' hrest' =>
      obtain ⟨rfl, rfl⟩ := run_unique (hnodes.symm.trans hnodes') hrun hrun' hlongest hlongest'
      have hsuffix : rest <:+ nodes := ⟨run, hnodes.symm⟩
      rw [ih (fun m hm => hone m (hsuffix.mem hm)) hrest']

/-! ## The groups that are built -/

/-- A member of a chain, as it is built. -/
def Member.branch (m : Member) : Branch :=
  ⟨m.tag, m.span, buildElement m.tag m.span (Sibling.ofNodes m.children)⟩

/-- A group as it is built. -/
def NodeGroup.group : NodeGroup → Group
  | .chain first others otherwise =>
    .chain first.branch ((others ++ otherwise.toList).map Member.branch)
  | .stray m => .stray m.span
  | .single m => .single m.branch.build
  | .run nodes => .run (Sibling.ofNodes nodes)

/-- White space does not change what follows. -/
theorem follows_cons_iff {name : Text} {node : Node} {nodes : List Node} {m : Member}
    {rest : List Node} (hnode : node.isElement = false) :
    Follows name (node :: nodes) m rest ↔ node.isBlank ∧ Follows name nodes m rest := by
  constructor
  · rintro ⟨blanks, heq, hblanks, hhas⟩
    cases blanks with
    | nil =>
      obtain ⟨rfl, -⟩ := List.cons.inj heq
      cases hnode
    | cons b blanks =>
      obtain ⟨rfl, rfl⟩ := List.cons.inj heq
      obtain ⟨hb, hblanks⟩ := List.forall_mem_cons.1 hblanks
      exact ⟨hb, blanks, rfl, hblanks, hhas⟩
  · rintro ⟨hb, blanks, rfl, hblanks, hhas⟩
    exact ⟨node :: blanks, rfl, List.forall_mem_cons.2 ⟨hb, hblanks⟩, hhas⟩

theorem follows_append_iff {name : Text} {blanks nodes : List Node} {m : Member}
    {rest : List Node} (hblanks : ∀ b ∈ blanks, b.isBlank) :
    Follows name (blanks ++ nodes) m rest ↔ Follows name nodes m rest := by
  induction blanks with
  | nil => exact .rfl
  | cons b blanks ih =>
    obtain ⟨hb, hrest⟩ := List.forall_mem_cons.1 hblanks
    rw [List.cons_append, follows_cons_iff (isElement_of_isBlank hb), ih hrest, and_iff_right hb]

/-- Where an element is next, it is the one that follows. -/
theorem follows_node_iff {name : Text} {m m' : Member} {nodes rest : List Node} :
    Follows name (m.node :: nodes) m' rest ↔ m.tag.has name ∧ m' = m ∧ rest = nodes := by
  constructor
  · rintro ⟨blanks, heq, hblanks, hhas⟩
    obtain ⟨rfl, rfl⟩ := first_unique hblanks (List.forall_mem_nil _)
      (heq.symm.trans (List.nil_append _).symm)
    exact ⟨hhas, rfl, rfl⟩
  · rintro ⟨hhas, rfl, rfl⟩
    exact ⟨[], rfl, List.forall_mem_nil _, hhas⟩

/-- Where no alternative follows white space, the chain ends before it. -/
theorem Alternatives.none_behind {blanks nodes : List Node} (hblanks : ∀ b ∈ blanks, b.isBlank)
    (hnot : ∀ name m rest, name ∈ ["else-if".toList, "else".toList] →
      ¬Follows name nodes m rest) :
    Alternatives (blanks ++ nodes) [] Option.none (blanks ++ nodes) := by
  refine .none (fun m rest h => ?_) fun m rest h => ?_
  · exact hnot _ m rest (by decide) ((follows_append_iff hblanks).1 h)
  · exact hnot _ m rest (by decide) ((follows_append_iff hblanks).1 h)

/-- The alternatives that are built are those that follow, whatever white space `blanks` has been
passed before. -/
theorem exists_alternatives (blanks nodes : List Node) (hblanks : ∀ b ∈ blanks, b.isBlank) :
    ∃ others otherwise rest, Alternatives (blanks ++ nodes) others otherwise rest ∧
      alternatives (Sibling.ofNodes (blanks ++ nodes)) (Sibling.ofNodes nodes) =
        ((others ++ otherwise.toList).map Member.branch, Sibling.ofNodes rest) := by
  induction nodes generalizing blanks with
  | nil =>
    refine ⟨[], none, blanks ++ [], .none_behind hblanks fun name m rest _ h => ?_, rfl⟩
    cases h.mem
  | cons node nodes ih =>
    cases node with
    | element tag children span =>
      let m : Member := ⟨tag, children, span⟩
      have hfollows : ∀ name, tag.has name → Follows name (blanks ++ m.node :: nodes) m nodes :=
        fun name hname => (follows_append_iff hblanks).2 (follows_node_iff.2 ⟨hname, rfl, rfl⟩)
      rw [Sibling.ofNodes, Sibling.ofNode, alternatives]
      by_cases helseIf : tag.has "else-if".toList
      · obtain ⟨others, otherwise, rest, hothers, heq⟩ := ih [] (List.forall_mem_nil _)
        rw [List.nil_append] at heq
        refine ⟨m :: others, otherwise, rest, .elseIf (hfollows _ helseIf) hothers, ?_⟩
        rw [if_pos helseIf, heq]
        rfl
      by_cases helse : tag.has "else".toList
      · refine ⟨[], some m, nodes, .otherwise (hfollows _ helse), ?_⟩
        rw [if_neg helseIf, if_pos helse]
        rfl
      · refine ⟨[], none, blanks ++ .element tag children span :: nodes,
          .none_behind hblanks fun name m' rest hname h => ?_, ?_⟩
        · have hhas := (follows_node_iff (m := m)).1 h
          rcases List.mem_pair.1 hname with rfl | rfl
          · exact helseIf hhas.1
          · exact helse hhas.1
        · rw [if_neg helseIf, if_neg helse]
          rfl
    | text content span =>
      by_cases hblank : isWhiteOnly content
      · obtain ⟨others, otherwise, rest, hothers, heq⟩ := ih (blanks ++ [.text content span])
          (List.forall_mem_append.2 ⟨hblanks, fun b hb => List.mem_singleton.1 hb ▸ hblank⟩)
        rw [List.append_assoc, List.singleton_append] at hothers heq
        refine ⟨others, otherwise, rest, hothers, ?_⟩
        rw [← heq]
        simp [Sibling.ofNodes, Sibling.ofNode, alternatives, Sibling.isBlank, hblank]
      · refine ⟨[], none, _, .none_behind hblanks fun name m rest _ h => ?_, ?_⟩
        · exact hblank ((follows_cons_iff rfl).1 h).1
        · simp [Sibling.ofNodes, Sibling.ofNode, alternatives, Sibling.isBlank, hblank]
    | interpolation exp span =>
      refine ⟨[], none, _, .none_behind hblanks fun name m rest _ h => ?_, ?_⟩
      · cases ((follows_cons_iff rfl).1 h).1
      · simp [Sibling.ofNodes, Sibling.ofNode, alternatives, Sibling.isBlank]

/-- Groups of nodes, which are those that are built. -/
def Grouped (nodes : List Node) (gs : List NodeGroup) : Prop :=
  Grouping nodes gs ∧ groups (Sibling.ofNodes nodes) = gs.map NodeGroup.group

/-- An element is in a group by itself, or in a chain with the alternatives that follow it. -/
theorem exists_grouped_node (m : Member) {nodes : List Node}
    (hbehind : ∀ rest, rest <:+ nodes → ∃ gs, Grouped rest gs) :
    ∃ gs, Grouped (m.node :: nodes) gs := by
  have hgroups : Sibling.ofNodes (m.node :: nodes) =
      Sibling.ofNode m.node :: Sibling.ofNodes nodes := rfl
  by_cases hif : m.tag.has "if".toList
  · obtain ⟨others, otherwise, rest, hothers, heq⟩ :=
      exists_alternatives [] nodes (List.forall_mem_nil _)
    obtain ⟨gs, hgs, hrest⟩ := hbehind rest hothers.suffix
    refine ⟨.chain m others otherwise :: gs, .chain hif hothers hgs, ?_⟩
    rw [List.nil_append] at heq
    rw [hgroups, Member.node, Sibling.ofNode, groups, if_pos hif, heq, hrest]
    rfl
  obtain ⟨gs, hgs, hrest⟩ := hbehind nodes List.suffix_rfl
  by_cases halternative : isAlternative m.tag
  · refine ⟨.stray m :: gs, .stray (Bool.eq_false_iff.2 hif) halternative hgs, ?_⟩
    rw [hgroups, Member.node, Sibling.ofNode, groups, if_neg hif, if_pos halternative, hrest]
    rfl
  · refine ⟨.single m :: gs,
      .single (Bool.eq_false_iff.2 hif) (Bool.eq_false_iff.2 halternative) hgs, ?_⟩
    rw [hgroups, Member.node, Sibling.ofNode, groups, if_neg hif, if_neg halternative, hrest]
    rfl

/-- A text or an interpolation is in the longest run. -/
theorem exists_grouped_run {node : Node} {nodes : List Node} (hnode : node.isElement = false)
    (hbehind : ∀ rest, rest <:+ nodes → ∃ gs, Grouped rest gs) :
    ∃ gs, Grouped (node :: nodes) gs := by
  let p : Node → Bool := fun n => !n.isElement
  have hnodes : node :: nodes = node :: nodes.takeWhile p ++ nodes.dropWhile p := by
    rw [List.cons_append, List.takeWhile_append_dropWhile]
  obtain ⟨gs, hgs, hgroups⟩ := hbehind _ (List.dropWhile_suffix p)
  refine ⟨.run (node :: nodes.takeWhile p) :: gs,
    .run hnodes (List.cons_ne_nil _ _) ?_ ?_ hgs, ?_⟩
  · refine List.forall_mem_cons.2 ⟨hnode, fun n hn => ?_⟩
    simpa [p] using List.mem_takeWhile_imp hn
  · intro n hn
    have hhead := List.head?_dropWhile_not p nodes
    rw [hn] at hhead
    simpa [p] using hhead
  · have hp : (fun s => !Sibling.isElement s) ∘ Sibling.ofNode = p :=
      funext fun n => congrArg not (isElement_ofNode n)
    rw [ofNodes_eq_map, List.map_cons, groups_run ((isElement_ofNode node).trans hnode),
      List.takeWhile_map, List.dropWhile_map, hp, ← ofNodes_eq_map, ← ofNodes_eq_map, hgroups]
    simp [NodeGroup.group, ofNodes_eq_map]

/-- The groups that are built are those of a grouping. -/
theorem exists_grouped (nodes : List Node) : ∃ gs, Grouped nodes gs := by
  -- a chain skips nodes, so the induction is on the number of nodes
  induction hn : nodes.length using Nat.strongRecOn generalizing nodes with
  | _ n ih =>
    cases nodes with
    | nil => exact ⟨[], .nil, by rw [Sibling.ofNodes, groups]; rfl⟩
    | cons node nodes =>
      have hbehind : ∀ rest, rest <:+ nodes → ∃ gs, Grouped rest gs := by
        intro rest hrest
        have hshorter : rest.length < n := hn ▸ Nat.lt_succ_of_le hrest.length_le
        exact ih rest.length hshorter rest rfl
      cases node with
      | element tag children span => exact exists_grouped_node ⟨tag, children, span⟩ hbehind
      | text | interpolation => exact exists_grouped_run rfl hbehind

/-! ## What the groups become -/

section Become

variable {locals : List Text} {depth : Nat}

theorem Alternatives.members {nodes rest : List Node} {others : List Member}
    {otherwise : Option Member} (h : Alternatives nodes others otherwise rest) :
    (∀ m ∈ others, m.node ∈ nodes ∧ m.tag.has "else-if".toList) ∧
      ∀ m ∈ otherwise, m.node ∈ nodes ∧ m.tag.has "else".toList := by
  induction h with
  | elseIf h _ ih =>
    obtain ⟨hothers, hotherwise⟩ := ih
    refine ⟨List.forall_mem_cons.2 ⟨⟨h.mem, ?_⟩, fun m hm => ?_⟩, fun m hm => ?_⟩
    · obtain ⟨_, -, -, hhas⟩ := h
      exact hhas
    · exact (hothers m hm).imp_left fun hmem => h.suffix.mem hmem
    · exact (hotherwise m hm).imp_left fun hmem => h.suffix.mem hmem
  | otherwise h =>
    refine ⟨List.forall_mem_nil _, fun m hm => ?_⟩
    cases hm
    obtain ⟨_, -, -, hhas⟩ := id h
    exact ⟨h.mem, hhas⟩
  | none => exact ⟨List.forall_mem_nil _, nofun⟩

theorem HasOneBranch.eq_false {tag : Tag} (hone : HasOneBranch tag) {a b : Text}
    (ha : a ∈ branchDirectives) (hb : b ∈ branchDirectives) (hne : a ≠ b) (h : tag.has a) :
    tag.has b = false :=
  Bool.eq_false_iff.2 fun h' => hne (hone a ha b hb h h')

/-- The condition of a tag is the expression of the one directive that ties it to its siblings. -/
theorem tests_of_testOf {m : Member} {name test : Text}
    (hname : name = "if".toList ∨ name = "else-if".toList) (hone : HasOneBranch m.tag)
    (hhas : m.tag.has name) (h : testOf locals m.tag = .ok (some test)) :
    m.Tests locals name test := by
  obtain ⟨d, hd⟩ := Option.isSome_iff_exists.1 hhas
  have hfound : (m.tag.directive? "if".toList).or (m.tag.directive? "else-if".toList) = some d := by
    rcases hname with rfl | rfl
    · rw [hd, Option.some_or]
    · have hif := hone.eq_false (by decide) (b := "if".toList) (by decide) (by decide) hhas
      rw [Tag.has, Option.isSome_eq_false_iff, Option.isNone_iff_eq_none] at hif
      rw [hif, Option.none_or, hd]
  rw [testOf, hfound] at h
  obtain ⟨exp, hexp, h⟩ := bind_eq_ok.1 h
  obtain ⟨e, he, h⟩ := bind_eq_ok.1 h
  cases h
  exact ⟨d, exp, hd, required_eq_ok.1 hexp, inContext_eq_ok.1 he⟩

/-- A chain is written as its conditions, from the first to the last. -/
theorem print_chained (depth : Nat) {members : List Member} {otherwise : Option Member} {w : VNode}
    (hmembers : ∀ m ∈ members, m.tag.has "else".toList = false)
    (hotherwise : ∀ m ∈ otherwise, m.tag.has "else".toList)
    (h : Chained locals ((members ++ otherwise.toList).map Member.branch) w) :
    ∃ branches last, Forall₂ (fun m (branch : Text × Text) =>
        testOf locals m.tag = .ok (some branch.1) ∧ m.Prints locals depth branch.2)
          members branches ∧
      PrintsOtherwise locals depth otherwise last ∧
      VNode.print depth w = ternary (indent depth) last branches := by
  induction members generalizing w with
  | nil =>
    cases otherwise with
    | none =>
      cases h
      exact ⟨[], _, .nil, rfl, rfl⟩
    | some m =>
      cases h with
      | otherwise _ h => exact ⟨[], _, .nil, ⟨w, h, rfl⟩, rfl⟩
      | test hlast => exact absurd ((hotherwise m rfl).symm.trans (hlast rfl)) Bool.noConfusion
  | cons m members ih =>
    obtain ⟨hm, hrest⟩ := List.forall_mem_cons.1 hmembers
    rw [List.cons_append, List.map_cons] at h
    generalize hall : (members ++ otherwise.toList).map Member.branch = behind at h
    cases h with
    | otherwise helse => exact absurd (helse.symm.trans hm) Bool.noConfusion
    | @test _ _ test v no hlast htest hv hothers =>
      subst hall
      obtain ⟨branches, last, hbranches, hlast, hprint⟩ := ih hrest hothers
      refine ⟨(test, VNode.print depth v) :: branches, last,
        .cons ⟨htest, v, hv, rfl⟩ hbranches, hlast, ?_⟩
      rw [VNode.print, hprint, ternary]

/-- Texts and interpolations are written one behind the other. -/
theorem printsPart_of_textRun {nodes : List Node} {run : List TextPart}
    (hnodes : ∀ n ∈ nodes, n.isElement = false)
    (h : textRun locals (Sibling.ofNodes nodes) = .ok run) :
    Forall₂ (PrintsPart locals) nodes (run.map TextPart.print) := by
  rw [textRun, mapM_eq_ok] at h
  induction nodes generalizing run with
  | nil =>
    cases h
    exact .nil
  | cons node nodes ih =>
    obtain ⟨hnode, hrest⟩ := List.forall_mem_cons.1 hnodes
    cases node with
    | element => cases hnode
    | text content span =>
      simp only [Sibling.ofNodes, Sibling.ofNode, List.filterMap_cons, Sibling.part?] at h
      cases h with
      | cons hpart hparts =>
        cases hpart
        exact .cons (.text content span) (ih hrest hparts)
    | interpolation exp span =>
      simp only [Sibling.ofNodes, Sibling.ofNode, List.filterMap_cons, Sibling.part?] at h
      cases h with
      | cons hpart hparts =>
        obtain ⟨e, he, rfl⟩ := map_eq_ok.1 hpart
        exact .cons (.shown span (inContext_eq_ok.1 he)) (ih hrest hparts)

/-- A chain is written as its conditions with their elements. -/
theorem written_chain {first : Member} {nodes rest : List Node} {others : List Member}
    {otherwise : Option Member} {v : VNode}
    (hone : ∀ m : Member, m.node ∈ first.node :: nodes → HasOneBranch m.tag)
    (hif : first.tag.has "if".toList) (hothers : Alternatives nodes others otherwise rest)
    (hv : buildChain locals first.branch ((others ++ otherwise.toList).map Member.branch) = .ok v) :
    Written locals depth (.chain first others otherwise) (VNode.print depth v) := by
  obtain ⟨w, hw, rfl⟩ := buildChain_eq_ok.1 hv
  obtain ⟨helseIfs, helse⟩ := hothers.members
  have hnodes : ∀ m : Member, m.node ∈ nodes → HasOneBranch m.tag :=
    fun m hm => hone m (List.mem_cons_of_mem _ hm)
  have hfirst := hone first List.mem_cons_self
  have hmembers : ∀ m ∈ first :: others, m.tag.has "else".toList = false := by
    refine List.forall_mem_cons.2
      ⟨hfirst.eq_false (by decide) (by decide) (by decide) hif, fun m hm => ?_⟩
    obtain ⟨hmem, hhas⟩ := helseIfs m hm
    exact (hnodes m hmem).eq_false (by decide) (by decide) (by decide) hhas
  obtain ⟨branches, last, hbranches, hlast, hprint⟩ :=
    print_chained (depth + 1) hmembers (fun m hm => (helse m hm).2) hw
  rw [VNode.print, hprint]
  cases hbranches with
  | cons hbranch hbranches =>
    refine .chain ⟨tests_of_testOf (.inl rfl) hfirst hif hbranch.1, hbranch.2⟩ ?_ hlast
    have hall := (List.forall₂_and_left _ _).2 ⟨helseIfs, hbranches⟩
    refine hall.imp fun m branch ⟨⟨hmem, hhas⟩, htest, hprints⟩ => ⟨?_, hprints⟩
    exact tests_of_testOf (.inr rfl) (hnodes m hmem) hhas htest

/-- The groups of nodes are written one by one. -/
theorem written_of_grouping {nodes : List Node} {groups : List NodeGroup} {vs : List VNode}
    (hone : ∀ m : Member, m.node ∈ nodes → HasOneBranch m.tag) (h : Grouping nodes groups)
    (hvs : Forall₂ (fun g v => Group.build locals g = .ok v) (groups.map NodeGroup.group) vs) :
    Forall₂ (Written locals depth) groups (VNode.printAll depth vs) := by
  induction h generalizing vs with
  | nil =>
    cases hvs
    exact .nil
  | chain hif hothers _ ih =>
    cases hvs with
    | cons hv hvs =>
      refine .cons (written_chain hone hif hothers hv) (ih (fun m hm => hone m ?_) hvs)
      exact List.mem_cons_of_mem _ (hothers.suffix.mem hm)
  | stray =>
    cases hvs with
    | cons hv hvs => cases hv
  | single _ _ _ ih =>
    cases hvs with
    | @cons _ v _ _ hv hvs =>
      exact .cons (.single ⟨v, hv, rfl⟩) (ih (fun m hm => hone m (List.mem_cons_of_mem _ hm)) hvs)
  | run hnodes _ hrun _ _ ih =>
    cases hvs with
    | cons hv hvs =>
      subst hnodes
      obtain ⟨run, hparts, rfl⟩ := map_eq_ok.1 hv
      refine .cons ?_ (ih (fun m hm => hone m (List.mem_append_right _ hm)) hvs)
      exact .run (printsPart_of_textRun hrun hparts)

end Become

/-! ## Siblings -/

/-- Siblings that are tied to each other in one way at most have one grouping, from left to right.
Where they are built, each of its groups is one expression, in order. An alternative that follows no
condition is an error, unless a text of the siblings cannot be read. -/
theorem buildSiblings_grouped {nodes : List Node}
    (hone : ∀ m : Member, m.node ∈ nodes → HasOneBranch m.tag) (locals : List Text) :
    ∃ gs, Grouping nodes gs ∧ (∀ gs', Grouping nodes gs' → gs' = gs) ∧
      (∀ vs, buildSiblings locals (Sibling.ofNodes nodes) = .ok vs →
        ∀ depth, Forall₂ (Written locals depth) gs (VNode.printAll depth vs)) ∧
      ∀ m, .stray m ∈ gs →
        (∃ e, buildSiblings locals (Sibling.ofNodes nodes) = Outcome.fail e) ∨
          buildSiblings locals (Sibling.ofNodes nodes) = .error .splitCharacter ∧
            ∃ t ∈ textsOfNodes nodes, isReadable t = false := by
  obtain ⟨gs, hgs, hgroups⟩ := exists_grouped nodes
  have hwritten : ∀ vs, buildSiblings locals (Sibling.ofNodes nodes) = .ok vs →
      ∀ depth, Forall₂ (Written locals depth) gs (VNode.printAll depth vs) := by
    intro vs hvs depth
    rw [buildSiblings_eq_ok, hgroups] at hvs
    exact written_of_grouping hone hgs hvs
  refine ⟨gs, hgs, fun gs' h => h.unique hone hgs, hwritten, fun m hm => ?_⟩
  have hends : Ends (fun stop => stop = .splitCharacter →
      ∃ t ∈ textsOfNodes nodes, isReadable t = false)
      (buildSiblings locals (Sibling.ofNodes nodes)) :=
    ends_buildSiblings locals (ends_ofNodes
      ⟨fun t ht hread _ => ⟨t, ht, hread⟩, fun _ _ _ => nofun⟩)
  cases hresult : buildSiblings locals (Sibling.ofNodes nodes) with
  | ok vs =>
    obtain ⟨code, -, hcode⟩ := exists_of_forall₂_mem (hwritten vs hresult 0).flip hm
    cases hcode
  | error stop =>
    cases stop with
    | failed e => exact .inl ⟨e, rfl⟩
    | splitCharacter => exact .inr ⟨rfl, hends _ hresult rfl⟩

/-- The nodes of `<p v-if="a">x</p> <p v-else>y</p>` with the expression `b` behind them. -/
def twoWays : List Node :=
  [.element ⟨"p".toList, .native,
      [.directive ⟨"if".toList, none, some "a".toList, [], ⟨3, 11⟩⟩]⟩
      [.text "x".toList ⟨12, 13⟩] ⟨0, 17⟩,
    .text " ".toList ⟨17, 18⟩,
    .element ⟨"p".toList, .native, [.directive ⟨"else".toList, none, none, [], ⟨21, 27⟩⟩]⟩
      [.text "y".toList ⟨28, 29⟩] ⟨18, 33⟩,
    .interpolation "b".toList ⟨33, 40⟩]

theorem buildSiblings_grouped_twoWays :
    parse "<p v-if=\"a\">x</p> <p v-else>y</p>\x7b\x7b b \x7d\x7d".toList = .ok twoWays ∧
      ∃ gs, Grouping twoWays gs ∧ Forall₂ (Written [] 1) gs
        ["(_ctx.a)\n    ? _createVNode(\"p\", null, \"x\")\n    : ".toList ++
            "_createVNode(\"p\", null, \"y\")".toList,
          "_createTextVNode(_toDisplayString(_ctx.b))".toList] := by
  have hone : ∀ m : Member, m.node ∈ twoWays → HasOneBranch m.tag := by
    intro m hm
    simp only [twoWays, Member.node, List.mem_cons, List.not_mem_nil, Node.element.injEq,
      reduceCtorEq, false_or, or_false] at hm
    rcases hm with ⟨htag, -⟩ | ⟨htag, -⟩
    · rw [htag]
      decide
    · rw [htag]
      decide
  obtain ⟨gs, hgs, -, hwritten, -⟩ := buildSiblings_grouped hone []
  have hcode : (buildSiblings [] (Sibling.ofNodes twoWays)).map (VNode.printAll 1) = .ok
      ["(_ctx.a)\n    ? _createVNode(\"p\", null, \"x\")\n    : ".toList ++
          "_createVNode(\"p\", null, \"y\")".toList,
        "_createTextVNode(_toDisplayString(_ctx.b))".toList] := by decide +kernel
  obtain ⟨vs, hvs, heq⟩ := map_eq_ok.1 hcode
  refine ⟨by decide +kernel, gs, hgs, ?_⟩
  rw [heq]
  exact hwritten vs hvs 1

-- an alternative without a condition, behind an expression that cannot be read
example :
    compile .module "\x7b\x7b →x => x \x7d\x7d<p v-else></p>".toList = .error .splitCharacter := by
  decide +kernel

end ModuleServer.Render
