import ModuleServer.Proofs.Template.Lexeme
import ModuleServer.Proofs.Text.Offset
import ModuleServer.Template.Tree

/-!
# Places in markup

The places of a tree are those of its elements and of what stands in their tags (`Node.places`).
Condensing drops and joins nothing but texts (`Node.flatMap_condense`).

A reader of markup leaves the end of what it reads, so what is wrong with markup that has no tree
lies in the markup (`isIn_of_parse`).
-/

namespace ModuleServer.Template

open Text

/-! ## Places of a tree -/

mutual

/-- The places of a node's elements and of what stands in their tags. -/
def Node.places : Node → List Span
  | .element tag children span => span :: (tag.items.map Item.span ++ Node.placesAll children)
  | .text .. => []
  | .interpolation .. => []

/-- The places of the elements of nodes and of what stands in their tags. -/
def Node.placesAll : List Node → List Span
  | [] => []
  | node :: nodes => node.places ++ Node.placesAll nodes

end

namespace Node

section FlatMap

variable {β : Type} {f : Node → List β} (hf : ∀ content span, f (text content span) = [])

include hf

theorem flatMap_consMerged (node : Node) (rest : List Node) :
    (consMerged node rest).flatMap f = f node ++ rest.flatMap f := by
  cases node with
  | element => rfl
  | interpolation => rfl
  | text content span =>
    rcases rest with _ | ⟨next, rest⟩
    · rfl
    · cases next with
      | element => rfl
      | interpolation => rfl
      | text => simp only [consMerged, List.flatMap_cons, hf, List.nil_append]

theorem flatMap_mergeTexts (nodes : List Node) :
    (mergeTexts nodes).flatMap f = nodes.flatMap f := by
  induction nodes with
  | nil => rfl
  | cons node nodes ih =>
    rw [mergeTexts, List.foldr_cons, flatMap_consMerged hf]
    exact congrArg (f node ++ ·) ih

theorem flatMap_condenseText (before after : Option Node) (content : Text) (span : Span) :
    (condenseText before after content span).flatMap f = [] := by
  unfold condenseText
  split
  · split
    · split <;> simp [hf]
    · rfl
  · simp [hf]

theorem flatMap_condenseFrom (before : Option Node) (nodes : List Node) :
    (condenseFrom before nodes).flatMap f = nodes.flatMap f := by
  induction nodes generalizing before with
  | nil => rfl
  | cons node nodes ih =>
    cases node with
    | element tag children span => exact congrArg (_ ++ ·) (ih _)
    | interpolation exp span => exact congrArg (_ ++ ·) (ih _)
    | text content span =>
      rw [condenseFrom, List.flatMap_append, flatMap_condenseText hf, ih, List.flatMap_cons, hf]

/-- Condensing drops and joins nothing but texts. -/
theorem flatMap_condense (preformatted : Bool) (nodes : List Node) :
    (condense preformatted nodes).flatMap f = nodes.flatMap f := by
  rw [condense]
  split
  · exact flatMap_mergeTexts hf nodes
  · rw [flatMap_condenseFrom hf, flatMap_mergeTexts hf]

end FlatMap

end Node

/-! ## Places of lexemes -/

/-- Whether the places that reading takes from a token lie in the markup: where an element starts,
where an end tag stands, and what is wrong. -/
def Token.IsPlaced (source : Text) : Token → Prop
  | .text .. => True
  | .interpolation .. => True
  | .opening _ _ span => IsOffset source span.start
  | .ending _ span => span.IsIn source
  | .fault error => error.span.IsIn source

/-- Whether the places that reading takes from a lexeme lie in the markup. -/
def Lexeme.IsPlaced (source : Text) : Lexeme → Prop
  | .token t _ => t.IsPlaced source
  | .comment _ => True
  | .fault error => error.span.IsIn source

section Lexemes

variable {source t : Text}

theorem span_ofText (name : Text) (value : Option Text) (span : Span) :
    (Item.ofText name value span).span = span := by
  rw [Item.ofText]
  split <;> rfl

/-- What is wrong with a tag lies between the tag or one of its items and the end. -/
theorem isIn_of_readItems_error {start : Nat} {name : Text} {found : List Item} {e : Error}
    (h : readItems (byteSize source) start name found t = .error e) (ht : t <:+ source)
    (hstart : IsOffset source start) : e.span.IsIn source := by
  fun_induction readItems (byteSize source) start name found t with
  | case1 =>
    cases h
    exact Span.isIn_of_isOffset hstart
  | case2 => cases h
  | case3 => cases h
  | case4 found t r _ hs ih =>
    have htrim : trimStart t <:+ t := List.dropWhile_suffix _
    rw [hs] at htrim
    exact ih h ((List.suffix_cons _ _).trans (htrim.trans ht))
  | case5 found t c r _ _ _ hs itemStart =>
    have htrim : trimStart t <:+ t := List.dropWhile_suffix _
    cases h
    rw [hs] at htrim
    exact Span.isIn_of_isOffset (isOffset_of_suffix (htrim.trans ht))
  | case6 found t c r _ _ _ hs itemStart value behind hr item ih =>
    have htrim : trimStart t <:+ t := List.dropWhile_suffix _
    have hname : r.dropWhile isItemChar <:+ r := List.dropWhile_suffix _
    rw [hs] at htrim
    exact ih h (((readAssignment?_suffix hr).trans hname).trans
      ((List.suffix_cons _ _).trans (htrim.trans ht)))

theorem isPlaced_readOpening {start : Nat} (ht : t <:+ source) (hstart : IsOffset source start) :
    (readOpening (byteSize source) start t).IsPlaced source := by
  have hname : t.dropWhile isNameChar <:+ source := (List.dropWhile_suffix _).trans ht
  rw [readOpening]
  cases hitems : readItems (byteSize source) start (t.takeWhile isNameChar) []
      (t.dropWhile isNameChar) with
  | error e => exact isIn_of_readItems_error hitems hname hstart
  | ok read => exact hstart

/-- The places of a lexeme lie in the markup. -/
theorem isPlaced_lexeme {c : Char} (h : c :: t <:+ source) :
    (lexeme (byteSize source) c t).IsPlaced source := by
  have hstart : IsOffset source (byteSize source - byteSize (c :: t)) := isOffset_of_suffix h
  have hrest := Span.isIn_of_isOffset hstart
  unfold lexeme
  split
  · rename_i r
    rw [readEnding]
    split
    · exact hrest
    · rename_i written rest hcut
      have hsuffix : rest <:+ '<' :: '/' :: r :=
        (suffix_of_cut? hcut).trans ((List.suffix_cons _ _).trans (List.suffix_cons _ _))
      exact Span.isIn_of_suffix h hsuffix
  · rw [readComment]
    split
    · exact hrest
    · trivial
  · rw [readInterpolation]
    split
    · exact hrest
    · trivial
  · split
    · exact isPlaced_readOpening ((List.suffix_cons _ _).trans h) hstart
    · trivial

theorem isPlaced_tokensFrom (ht : t <:+ source) :
    ∀ token ∈ tokensFrom (byteSize source) t, token.IsPlaced source := by
  fun_induction tokensFrom (byteSize source) t with
  | case1 => exact List.forall_mem_nil _
  | case2 c r token rest hlexeme ih =>
    have hplaced := isPlaced_lexeme ht
    have hrest := lexeme_suffix (byteSize source) c r
    rw [hlexeme] at hplaced hrest
    exact List.forall_mem_cons.2
      ⟨hplaced, ih (hrest.trans ((List.suffix_cons c r).trans ht))⟩
  | case3 c r rest hlexeme ih =>
    have hrest := lexeme_suffix (byteSize source) c r
    rw [hlexeme] at hrest
    exact ih (hrest.trans ((List.suffix_cons c r).trans ht))
  | case4 c r error hlexeme =>
    have hplaced := isPlaced_lexeme ht
    rw [hlexeme] at hplaced
    exact List.forall_mem_cons.2 ⟨hplaced, List.forall_mem_nil _⟩

end Lexemes

/-! ## Reading -/

/-- Whether all open elements start between two characters. -/
def Reading.IsPlaced (source : Text) (reading : Reading) : Prop :=
  ∀ frame ∈ reading.frames, IsOffset source frame.start

section Reading

variable {source : Text} {reading next : Reading} {token : Token}

/-- One more token keeps the open elements in place. -/
theorem Reading.IsPlaced.step (h : reading.IsPlaced source) (htoken : token.IsPlaced source)
    (hstep : reading.step token = .ok next) : next.IsPlaced source := by
  cases token with
  | text content span =>
    cases hstep
    exact h
  | interpolation exp span =>
    cases hstep
    exact h
  | opening tag selfClosing span =>
    rw [Reading.step] at hstep
    split at hstep
    · cases hstep
      exact h
    · cases hstep
      exact List.forall_mem_cons.2 ⟨htoken, h⟩
  | ending name span =>
    rw [Reading.step] at hstep
    split at hstep
    · cases hstep
    · rename_i frame frames hframes
      rw [Reading.IsPlaced, hframes] at h
      split at hstep
      · cases hstep
        exact (List.forall_mem_cons.1 h).2
      · cases hstep
  | fault error => cases hstep

/-- What is wrong with a token is found where it stands. -/
theorem isIn_of_step {e : Error} (htoken : token.IsPlaced source)
    (hstep : reading.step token = .error e) : e.span.IsIn source := by
  cases token with
  | text => cases hstep
  | interpolation => cases hstep
  | opening tag selfClosing span =>
    rw [Reading.step] at hstep
    split at hstep <;> cases hstep
  | ending name span =>
    rw [Reading.step] at hstep
    split at hstep
    · cases hstep
      exact htoken
    · split at hstep
      · cases hstep
      · cases hstep
        exact htoken
  | fault error =>
    cases hstep
    exact htoken

/-- Tokens keep the open elements in place, and what is wrong with them lies in the markup. -/
theorem isPlaced_foldlM {tokens : List Token} (htokens : ∀ token ∈ tokens, token.IsPlaced source)
    (h : reading.IsPlaced source) :
    (∀ last, tokens.foldlM Reading.step reading = .ok last → last.IsPlaced source) ∧
      ∀ e, tokens.foldlM Reading.step reading = .error e → e.span.IsIn source := by
  induction tokens generalizing reading with
  | nil =>
    refine ⟨fun last hlast => ?_, nofun⟩
    cases hlast
    exact h
  | cons token tokens ih =>
    obtain ⟨htoken, htokens⟩ := List.forall_mem_cons.1 htokens
    rw [List.foldlM_cons]
    cases hstep : reading.step token with
    | ok next => exact ih htokens (h.step htoken hstep)
    | error e =>
      refine ⟨nofun, fun e' he => ?_⟩
      cases he
      exact isIn_of_step htoken hstep

theorem isPlaced_start (source : Text) : Reading.start.IsPlaced source :=
  List.forall_mem_nil _

/-- What is wrong with markup lies in it. -/
theorem isIn_of_parse {e : Error} (h : parse source = .error e) : e.span.IsIn source := by
  have hread := isPlaced_foldlM (isPlaced_tokensFrom List.suffix_rfl) (isPlaced_start source)
  rw [parse, tokens] at h
  split at h
  · rename_i last hlast
    have hplaced := hread.1 last hlast
    rw [Reading.finish] at h
    split at h
    · cases h
    · rename_i frame frames hframes
      cases h
      exact Span.isIn_of_isOffset (hplaced frame (hframes ▸ List.mem_cons_self))
  · rename_i herror
    cases h
    exact hread.2 e herror

end Reading

end ModuleServer.Template
