import Mathlib.Data.List.Chain
import ModuleServer.Proofs.Template.Print

/-!
# Condensed siblings

Condensing does not look at places (`relocateAll_condense`), and leaves siblings alone whose texts
are condensed already (`condense_eq_self`).
-/

namespace ModuleServer

/-- A span with both its ends elsewhere. -/
def Span.relocate (f : Nat → Nat) (span : Span) : Span :=
  ⟨f span.start, f span.stop⟩

namespace Template

open Text

/-! ## Places -/

/-- An item whose place is elsewhere. -/
def Item.relocate (f : Nat → Nat) : Item → Item
  | .attribute a => .attribute { a with span := a.span.relocate f }
  | .directive d => .directive { d with span := d.span.relocate f }

/-- A tag whose items are elsewhere. -/
def Tag.relocate (f : Nat → Nat) (tag : Tag) : Tag :=
  { tag with items := tag.items.map (Item.relocate f) }

namespace Node

mutual

/-- A node that is elsewhere, with all that is in it. -/
def relocate (f : Nat → Nat) : Node → Node
  | .element tag children span =>
    .element (tag.relocate f) (relocateAll f children) (span.relocate f)
  | .text content span => .text content (span.relocate f)
  | .interpolation expression span => .interpolation expression (span.relocate f)

/-- Nodes that are elsewhere. -/
def relocateAll (f : Nat → Nat) : List Node → List Node
  | [] => []
  | node :: nodes => relocate f node :: relocateAll f nodes

end

variable (f : Nat → Nat)

theorem relocateAll_eq_map (nodes : List Node) : relocateAll f nodes = nodes.map (relocate f) := by
  induction nodes with
  | nil => rfl
  | cons node nodes ih => rw [relocateAll, ih, List.map_cons]

theorem isElement_relocate (node : Node) : (node.relocate f).isElement = node.isElement := by
  cases node <;> rfl

theorem relocate_consMerged (node : Node) (rest : List Node) :
    relocateAll f (consMerged node rest) = consMerged (node.relocate f) (relocateAll f rest) := by
  cases node with
  | element => rfl
  | interpolation => rfl
  | text content span =>
    rcases rest with _ | ⟨next, rest⟩
    · rfl
    · cases next <;> rfl

theorem relocateAll_mergeTexts (nodes : List Node) :
    relocateAll f (mergeTexts nodes) = mergeTexts (relocateAll f nodes) := by
  induction nodes with
  | nil => rfl
  | cons node nodes ih =>
    rw [mergeTexts, List.foldr_cons, relocate_consMerged]
    exact congrArg (consMerged (node.relocate f)) ih

theorem relocateAll_condenseText (before after : Option Node) (content : Text) (span : Span) :
    relocateAll f (condenseText before after content span) =
      condenseText (before.map (relocate f)) (after.map (relocate f)) content
        (span.relocate f) := by
  unfold condenseText
  split
  · cases before with
    | none => rfl
    | some p =>
      cases after with
      | none => rfl
      | some n =>
        simp only [Option.map_some, isElement_relocate]
        split <;> rfl
  · rfl

theorem relocateAll_condenseFrom (before : Option Node) (nodes : List Node) :
    relocateAll f (condenseFrom before nodes) =
      condenseFrom (before.map (relocate f)) (relocateAll f nodes) := by
  induction nodes generalizing before with
  | nil => rfl
  | cons node nodes ih =>
    cases node with
    | element => exact congrArg _ (ih _)
    | interpolation => exact congrArg _ (ih _)
    | text content span =>
      have hhead : (relocateAll f nodes).head? = nodes.head?.map (relocate f) := by
        cases nodes <;> rfl
      rw [condenseFrom, relocateAll, relocate, condenseFrom, hhead, ← relocateAll_condenseText,
        relocateAll_eq_map, List.map_append, ← relocateAll_eq_map, ← relocateAll_eq_map, ih]
      rfl

/-- Condensing does not look at places. -/
theorem relocateAll_condense (preformatted : Bool) (nodes : List Node) :
    relocateAll f (condense preformatted nodes) = condense preformatted (relocateAll f nodes) := by
  rw [condense, condense]
  split
  · exact relocateAll_mergeTexts f nodes
  · rw [relocateAll_condenseFrom, relocateAll_mergeTexts]
    rfl

theorem eraseAll_eq_map (nodes : List Node) : eraseAll nodes = nodes.map erase := by
  induction nodes with
  | nil => rfl
  | cons node nodes ih => rw [eraseAll, ih, List.map_cons]

mutual

/-- Places are forgotten by sending all of them to the start. -/
theorem erase_eq_relocate : ∀ node : Node, node.erase = node.relocate fun _ => 0
  | .element tag children span => by
    have htag : tag.erase = tag.relocate fun _ => 0 := by
      rw [Tag.erase, Tag.relocate]
      congr 2
    rw [erase, relocate, htag, eraseAll_eq_relocateAll children]
    rfl
  | .text _ _ => rfl
  | .interpolation _ _ => rfl

theorem eraseAll_eq_relocateAll : ∀ nodes : List Node,
    eraseAll nodes = relocateAll (fun _ => 0) nodes
  | [] => rfl
  | node :: nodes => by
    rw [eraseAll, relocateAll, erase_eq_relocate node, eraseAll_eq_relocateAll nodes]

end

theorem eraseAll_mergeTexts (nodes : List Node) :
    eraseAll (mergeTexts nodes) = mergeTexts (eraseAll nodes) := by
  rw [eraseAll_eq_relocateAll, eraseAll_eq_relocateAll, relocateAll_mergeTexts]

theorem eraseAll_condense (preformatted : Bool) (nodes : List Node) :
    eraseAll (condense preformatted nodes) = condense preformatted (eraseAll nodes) := by
  rw [eraseAll_eq_relocateAll, eraseAll_eq_relocateAll, relocateAll_condense]

/-! ## Siblings that are condensed -/

theorem collapseFrom_eq_self {t : Text} (h : isCollapsed t) (inRun : Bool)
    (hrun : inRun → headIs isWhite t = false) : collapseFrom inRun t = t := by
  induction t generalizing inRun with
  | nil => rfl
  | cons c t ih =>
    simp only [isCollapsed, Bool.and_eq_true, Bool.or_eq_true, Bool.not_eq_true',
      decide_eq_true_eq] at h
    obtain ⟨hc, ht⟩ := h
    rw [collapseFrom]
    rcases hc with hc | ⟨rfl, hnext⟩
    · rw [if_neg (by simp [hc]), ih ht false (by simp)]
    · have hblank : isWhite ' ' := by decide
      have hnot : inRun = false := by
        cases inRun with
        | false => rfl
        | true => exact absurd (hrun rfl) (by simp [headIs, hblank])
      rw [if_pos hblank, if_neg (by simp [hnot]), ih ht true fun _ => hnext]

/-- The only text of white space that is condensed is one space. -/
theorem eq_space {t : Text} (h : isCollapsed t) (hwhite : isWhiteOnly t) (hne : t ≠ []) :
    t = [' '] := by
  rcases t with _ | ⟨c, t⟩
  · exact absurd rfl hne
  simp only [isCollapsed, Bool.and_eq_true, Bool.or_eq_true, Bool.not_eq_true',
    decide_eq_true_eq] at h
  rw [isWhiteOnly, List.all_cons, Bool.and_eq_true] at hwhite
  rcases h.1 with hc | ⟨rfl, hnext⟩
  · simp [hwhite.1] at hc
  · rcases t with _ | ⟨d, t⟩
    · rfl
    · simp_all [headIs]

/-- No two texts are neighbours. -/
def AreApart (nodes : List Node) : Prop :=
  nodes.IsChain fun a b => ¬(a.isText ∧ b.isText)

theorem areApart_of_isSpaced {preformatted behindSibling : Bool} {nodes : List Node}
    (h : isSpaced preformatted behindSibling nodes) : AreApart nodes := by
  induction nodes generalizing behindSibling with
  | nil => exact .nil
  | cons node nodes ih =>
    rw [AreApart, List.isChain_cons]
    cases node with
    | element => exact ⟨fun _ _ both => (nomatch both.1), ih h⟩
    | interpolation => exact ⟨fun _ _ both => (nomatch both.1), ih h⟩
    | text content span =>
      simp only [isSpaced, Bool.and_eq_true, Bool.not_eq_true'] at h
      obtain ⟨⟨⟨-, hnext⟩, -⟩, hrest⟩ := h
      refine ⟨?_, ih hrest⟩
      rintro next hhead ⟨-, htext⟩
      rw [Option.mem_def.1 hhead] at hnext
      exact absurd (htext.symm.trans hnext) Bool.noConfusion

theorem mergeTexts_of_areApart {nodes : List Node} (h : AreApart nodes) :
    mergeTexts nodes = nodes := by
  induction nodes with
  | nil => rfl
  | cons node nodes ih =>
    obtain ⟨hnext, hrest⟩ := List.isChain_cons.1 h
    show consMerged node (mergeTexts nodes) = node :: nodes
    rw [ih hrest]
    cases node with
    | element => rfl
    | interpolation => rfl
    | text content span =>
      rcases nodes with _ | ⟨next, nodes⟩
      · rfl
      · cases next with
        | element => rfl
        | interpolation => rfl
        | text => exact absurd ⟨rfl, rfl⟩ (hnext _ rfl)

theorem condenseFrom_eq_self {before : Option Node} {nodes : List Node}
    (h : isSpaced false before.isSome nodes) : condenseFrom before nodes = nodes := by
  induction nodes generalizing before with
  | nil => rfl
  | cons node nodes ih =>
    cases node with
    | element tag children span =>
      have hrest : condenseFrom (some (.element tag children span)) nodes = nodes := ih h
      rw [condenseFrom, hrest]
      intro content place h
      cases h
    | interpolation exp span =>
      have hrest : condenseFrom (some (.interpolation exp span)) nodes = nodes := ih h
      rw [condenseFrom, hrest]
      intro content place h
      cases h
    | text content span =>
      simp only [isSpaced, Bool.and_eq_true, Bool.not_eq_true', Bool.false_or,
        Bool.or_eq_true] at h
      obtain ⟨⟨⟨hne, -⟩, hcollapsed, hplace⟩, hrest⟩ := h
      have hkept : collapse content = content := collapseFrom_eq_self hcollapsed false (by simp)
      -- white space alone is one space, and stays if it has siblings on both sides
      have htext : condenseText before nodes.head? content span = [.text content span] := by
        unfold condenseText
        by_cases hwhite : isWhiteOnly content
        · obtain rfl := eq_space hcollapsed hwhite (by simpa using hne)
          obtain ⟨hbefore, hafter⟩ := hplace.resolve_left (by decide)
          obtain ⟨p, rfl⟩ := Option.isSome_iff_exists.1 hbefore
          rcases nodes with _ | ⟨next, nodes⟩
          · simp at hafter
          · have hline : [' '].contains '\n' = false := by decide
            simp only [hwhite, hline, Bool.and_false, if_true, List.head?_cons]
            rfl
        · rw [if_neg hwhite, hkept]
      have hnodes : condenseFrom (some (.text content span)) nodes = nodes := ih hrest
      rw [condenseFrom, htext, hnodes]
      rfl

/-- Condensing leaves siblings alone whose texts are condensed. -/
theorem condense_eq_self {preformatted : Bool} {nodes : List Node}
    (h : isSpaced preformatted false nodes) : condense preformatted nodes = nodes := by
  rw [condense, mergeTexts_of_areApart (areApart_of_isSpaced h)]
  split
  · rfl
  · rename_i hpre
    rw [Bool.not_eq_true] at hpre
    subst hpre
    exact condenseFrom_eq_self h

end Node

end Template

end ModuleServer
