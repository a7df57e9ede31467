import ModuleServer.Proofs.Expression.FreeNames
import ModuleServer.Proofs.Render.Lexical
import ModuleServer.Proofs.Text.Pieces
import ModuleServer.Render.Build

/-!
# Reading paths and binders

What the compiler reads in the texts of paths, loops and parameters is what they were written for.

* `inContext_path`: putting a path into the context is resolving it, and nothing stops it.
* `isMemberPath_path`: the text of a path is one of a listener that stands for itself.
* `readLoop?_loop`, `bindingNames_loop`: a loop is cut between its names and its source.
* `bindingNames_params`: parameters bind their names.
-/

namespace ModuleServer.Render.Lexical

open Text
open Expression hiding Item

/-! ## Paths -/

namespace Path

/-- A member of a member of a value, and so on. -/
def chain (base : Expr) : List Name → Expr
  | [] => base
  | n :: members => chain (.member base .none false .none n) members

/-- A path as an expression. -/
def expr (p : Path) : Expr :=
  chain (.name p.head) p.members

theorem render_chain (members : List Name) (base : Expr) :
    (chain base members).render = base.render ++ members.flatMap fun n => '.' :: n.text := by
  induction members generalizing base with
  | nil => simp [chain]
  | cons n members ih =>
    rw [chain, ih]
    simp [Expr.render, memberMark, Gap.none]

theorem resolve_chain (locals : List Text) (members : List Name) (base : Expr) :
    (chain base members).resolve locals = chain (base.resolve locals) members := by
  induction members generalizing base with
  | nil => rfl
  | cons n members ih =>
    rw [chain, ih]
    rfl

theorem isProper_chain (members : List Name) {base : Expr} (hproper : base.isProper)
    (hending : base.ending ≠ .number) : (chain base members).isProper := by
  induction members generalizing base with
  | nil => exact hproper
  | cons n members ih =>
    apply ih
    · simp [Expr.isProper, hproper, hending]
    · simp [Expr.ending]

theorem render_expr (p : Path) : p.expr.render = p.text :=
  render_chain ..

theorem isProper_expr (p : Path) : p.expr.isProper :=
  isProper_chain _ rfl (by simp [Expr.ending])

theorem render_resolve_expr (bound : List Text) (p : Path) :
    (p.expr.resolve bound).render = (p.resolve bound).text := by
  rw [expr, resolve_chain, render_chain, resolve, Expr.resolve]
  split
  · simp [text, Name.inContext, Expr.render, memberMark, Gap.none]
  · rfl

/-- The text of a path is made of names and dots. -/
theorem mem_text {p : Path} {c : Char} (h : c ∈ p.text) : isNumberChar c := by
  simp only [text, List.mem_append, List.mem_flatMap, List.mem_cons] at h
  have hname : ∀ n : Name, c ∈ n.text → isNumberChar c := by
    intro n hc
    simp [isNumberChar, List.all_eq_true.1 (all_isNameChar n) c hc]
  rcases h with hc | ⟨n, -, rfl | hc⟩
  · exact hname p.head hc
  · rfl
  · exact hname n hc

theorem not_mem_text {p : Path} {c : Char} (h : isNumberChar c = false) : c ∉ p.text := by
  intro hc
  simp [mem_text hc] at h

theorem text_ne_nil (p : Path) : p.text ≠ [] := by
  simp [text, p.head.text_ne_nil]

end Path

/-- Putting a path into the context is resolving it. -/
theorem inContext_path (bound : List Text) (p : Path) :
    inContext bound p.text = .ok (p.resolve bound).text := by
  have harrow : has ['=', '>'] p.text = false := has_eq_false (Path.not_mem_text (by decide))
  have hbracket : '(' ∉ p.text := Path.not_mem_text (by decide)
  have hwrite := write_render bound .none .none p.isProper_expr
  rw [p.render_expr, p.render_resolve_expr] at hwrite
  have hpieces : (readPieces bound p.text).flatMap Piece.output = (p.resolve bound).text := by
    simpa [Gap.none, write, readPieces] using hwrite
  rw [inContext, prefixNames?, parameterNames?_eq_nil harrow (.inr hbracket)]
  exact congrArg _ (congrArg some hpieces)

theorem trim_path (p : Path) : trim p.text = p.text := by
  have hwhite : ∀ c ∈ p.text, isWhite c = false := by
    intro c hc
    by_contra h
    have hnumber := isNumberChar_of_white (Bool.of_not_eq_false h)
    simp [Path.mem_text hc] at hnumber
  refine trim_eq_self (headIs_eq_false hwhite) (headIs_eq_false fun c hc => ?_)
  exact hwhite c (List.mem_reverse.1 hc)

theorem pieces_path (p : Path) :
    pieces (· = '.') p.text = p.head.text :: p.members.map Name.text := by
  have hname : ∀ n : Name, ∀ c ∈ n.text, decide (c = '.') = false := by
    intro n c hc
    simpa using ne_of_mem_name hc (by decide)
  have hmembers : ∀ t ∈ p.members.map Name.text, ∀ c ∈ t, decide (c = '.') = false := by
    intro t ht
    obtain ⟨n, -, rfl⟩ := List.mem_map.1 ht
    exact hname n
  have hpieces := pieces_flatMap (c := '.') (by decide) (hname p.head) hmembers
  rwa [List.flatMap_map] at hpieces

/-- The text of a path is one of member names. -/
theorem isMemberPath_path (p : Path) : isMemberPath p.text := by
  have hall : ((p.head.text :: p.members.map Name.text)).all isName := by
    simp [p.head.valid, Name.valid]
  simp [isMemberPath, trim_path, pieces_path, p.text_ne_nil, hall]

/-! ## Names and source of a loop -/

/-- Neither of the words that part names from source starts here. -/
def NoWord (t : Text) : Prop :=
  after? "in ".toList t = none ∧ after? "of ".toList t = none

/-- A text is left behind on the way to the word that parts names from source. -/
def Skips (t rest : Text) : Prop :=
  cutLoop? (t ++ rest) = (cutLoop? rest).map fun (names, source) => (t ++ names, source)

section Skips

variable {t u rest : Text}

theorem Skips.append (ht : Skips t (u ++ rest)) (hu : Skips u rest) : Skips (t ++ u) rest := by
  rw [Skips, List.append_assoc, ht, hu, Option.map_map]
  congr 1
  funext ⟨names, source⟩
  simp

theorem skips_cons {c : Char} (h : c = ' ' → NoWord rest) : Skips [c] rest := by
  have hwords : after? " in ".toList (c :: rest) = none ∧
      after? " of ".toList (c :: rest) = none := by
    by_cases hc : c = ' '
    · obtain ⟨hin, hof⟩ := h hc
      simp_all [after?]
    · simp [after?, Ne.symm hc]
  rw [Skips, List.singleton_append, cutLoop?, hwords.1, hwords.2]
  rfl

theorem skips_of_no_space (h : ∀ c ∈ t, c ≠ ' ') : Skips t rest := by
  induction t with
  | nil => simp [Skips]
  | cons c t ih =>
    have hc : Skips [c] (t ++ rest) :=
      skips_cons fun hspace => absurd hspace (h c List.mem_cons_self)
    exact hc.append (ih fun d hd => h d (List.mem_cons_of_mem c hd))

theorem noWord_of_head {c : Char} (hi : c ≠ 'i') (ho : c ≠ 'o') : NoWord (c :: t) := by
  constructor <;> simp [after?, Ne.symm hi, Ne.symm ho]

theorem skips_gap (gap : Gap) (h : NoWord rest) : Skips gap.text rest := by
  obtain ⟨t, hwhite⟩ := gap
  dsimp only
  induction t with
  | nil => simp [Skips]
  | cons c t ih =>
    simp only [List.all_cons, Bool.and_eq_true] at hwhite
    refine Skips.append (t := [c]) (skips_cons fun _ => ?_) (ih hwhite.2)
    cases t with
    | nil => exact h
    | cons d t =>
      have hd : isWhite d := by simp_all
      exact noWord_of_head (by rintro rfl; exact absurd hd (by decide))
        (by rintro rfl; exact absurd hd (by decide))

/-- A bound name is none of the words, since these are no names. -/
theorem noWord_binder (x : Binder) (hrest : headIs isNameChar rest = false) :
    NoWord (x.text ++ rest) := by
  have hword : ∀ word : Text, word.all isNameChar → isKeyword word →
      after? (word ++ [' ']) (x.text ++ rest) = none := by
    intro word hchars hkeyword
    cases hafter : after? (word ++ [' ']) (x.text ++ rest) with
    | none => rfl
    | some r =>
      have hname := takeWhile_run (all_isNameChar x.toName) hrest
      have hspace : headIs isNameChar (' ' :: r) = false := rfl
      rw [after?_eq_some.1 hafter, List.append_assoc, List.singleton_append,
        takeWhile_run hchars hspace] at hname
      have hnot := x.notKeyword
      simp [← hname, hkeyword] at hnot
  exact ⟨hword "in".toList (by decide) (by decide), hword "of".toList (by decide) (by decide)⟩

theorem skips_name (n : Name) : Skips n.text rest :=
  skips_of_no_space fun _ hc => ne_of_mem_name hc (by decide)

theorem skips_names (names : LoopNames) : Skips names.text (' ' :: rest) := by
  cases names with
  | item x => exact skips_name x.toName
  | indexed first x beforeComma behindComma y last =>
    have hmark : ∀ (c : Char) (rest : Text), c ≠ ' ' → Skips [c] rest := by
      intro c rest hc
      exact skips_cons fun hspace => absurd hspace hc
    have hgap : ∀ (gap : Gap) (c : Char) (rest : Text), isNumberChar c = false →
        Skips gap.text (c :: rest) := by
      intro gap c rest hc
      exact skips_gap gap (noWord_of_head (by rintro rfl; exact absurd hc (by decide))
        (by rintro rfl; exact absurd hc (by decide)))
    have hname : ∀ (gap behind : Gap) (x : Binder) (c : Char) (rest : Text),
        isNumberChar c = false → Skips (gap.text ++ x.text ++ behind.text) (c :: rest) := by
      intro gap behind x c rest hc
      have hrest := headIs_isNameChar (headIs_gapMark behind hc rest)
      refine Skips.append ?_ (hgap behind c rest hc)
      exact Skips.append (skips_gap gap (noWord_binder x hrest)) (skips_name x.toName)
    have hy : Skips (behindComma.text ++ y.text ++ last.text ++ [')']) (' ' :: rest) :=
      (hname behindComma last y ')' (' ' :: rest) (by decide)).append (hmark ')' _ (by decide))
    have hcomma := Skips.append (t := [',']) (hmark ',' _ (by decide)) hy
    have hx := Skips.append (hname first beforeComma x ',' _ (by decide)) hcomma
    have hall := Skips.append (t := ['(']) (hmark '(' _ (by decide)) hx
    simpa [LoopNames.text] using hall

end Skips

/-- The names of a loop without brackets and white space around them. -/
def LoopNames.inner : LoopNames → Text
  | .item x => x.text
  | .indexed _ x beforeComma behindComma y _ =>
    x.text ++ beforeComma.text ++ [','] ++ behindComma.text ++ y.text

theorem trim_name (n : Name) : trim n.text = n.text := by
  have hwhite := headIs_name n (fun _ => isWhite_of_isNameChar) []
  simp only [List.append_nil] at hwhite
  exact trim_eq_self hwhite.1 hwhite.2

theorem trim_names (names : LoopNames) : trim (unwrap (trim names.text)) = names.inner := by
  cases names with
  | item x =>
    have hunwrap : unwrap x.text = x.text := by
      rw [unwrap]
      rintro r heq
      exact ne_of_mem_name (n := x.toName) (c := '(') (d := '(') (by simp [heq]) (by decide) rfl
    simp only [LoopNames.text, LoopNames.inner, trim_name, hunwrap]
  | indexed first x beforeComma behindComma y last =>
    have hunwrap : ∀ t : Text, unwrap ('(' :: (t ++ [')'])) = t := by
      intro t
      simp [unwrap]
    have hstart := (headIs_name x.toName (fun _ => isWhite_of_isNameChar)
      (beforeComma.text ++ [','] ++ behindComma.text ++ y.text)).1
    have hend := (headIs_name y.toName (fun _ => isWhite_of_isNameChar)
      (x.text ++ beforeComma.text ++ [','] ++ behindComma.text).reverse).2
    have hpadded := trim_padded (t := x.text ++ beforeComma.text ++ [','] ++ behindComma.text ++
      y.text) first.white last.white (by simpa only [List.append_assoc] using hstart)
      (by rw [List.reverse_append]; exact hend)
    rw [LoopNames.text, trim_enclosed (by decide) (by decide), hunwrap, LoopNames.inner]
    simpa only [List.append_assoc] using hpadded

theorem inner_ne_nil (names : LoopNames) : names.inner ≠ [] := by
  cases names <;> simp [LoopNames.inner, Name.text_ne_nil]

/-- A loop is cut between its names and its source. -/
theorem readLoop?_loop (l : Loop) : readLoop? l.text = some (l.names.inner, l.source.text) := by
  have hword : cutLoop? ((if l.isOf then " of ".toList else " in ".toList) ++ l.source.text) =
      some ([], l.source.text) := by
    cases l.isOf <;> simp [cutLoop?, after?]
  have hskips : Skips l.names.text ((if l.isOf then " of ".toList else " in ".toList) ++
      l.source.text) := by
    cases l.isOf <;> exact skips_names l.names
  have hcut : cutLoop? l.text = some (l.names.text, l.source.text) := by
    rw [Loop.text, List.append_assoc, hskips, hword]
    simp
  have hnames : trim l.names.text ≠ [] := by
    intro h
    have htrim := trim_names l.names
    rw [h] at htrim
    exact inner_ne_nil l.names htrim.symm
  simp [readLoop?, hcut, trim_path, trim_names, hnames, l.source.text_ne_nil]

/-! ## Names that are bound -/

/-- A binder binds unless it is a key. -/
theorem bindingNames_binder (x : Binder) {rest : Text} (hrest : headIs isNameChar rest = false)
    (hcolon : firstVisible? rest ≠ some ':') :
    bindingNames (x.text ++ rest) = x.text :: bindingNames rest := by
  rw [bindingNames_name x.toName hrest, if_neg (by simp [hcolon, x.notKeyword])]

theorem bindingNames_key (n : Name) {rest : Text} (hrest : headIs isNameChar rest = false)
    (hcolon : firstVisible? rest = some ':') :
    bindingNames (n.text ++ rest) = bindingNames rest := by
  rw [bindingNames_name n hrest, if_pos (by simp [hcolon])]

/-- Before a mark, with white space between them or not, a binder binds. -/
theorem bindingNames_beforeMark (x : Binder) (gap : Gap) {c : Char}
    (hnumber : isNumberChar c = false) (hwhite : isWhite c = false) (hcolon : c ≠ ':')
    (rest : Text) :
    bindingNames (x.text ++ gap.text ++ c :: rest) = x.text :: bindingNames (c :: rest) := by
  have hrest := headIs_isNameChar (headIs_gapMark gap hnumber rest)
  rw [List.append_assoc, bindingNames_binder x hrest ?_, bindingNames_gap]
  simpa [firstVisible?_gap gap hwhite rest] using hcolon

/-- A loop binds its names. -/
theorem bindingNames_loop (names : LoopNames) : bindingNames names.inner = names.names := by
  have hlast : ∀ x : Binder, bindingNames x.text = [x.text] := by
    intro x
    have hend : headIs isNameChar [] = false := rfl
    simpa [bindingNames] using bindingNames_binder x hend (by decide)
  cases names with
  | item x => exact hlast x
  | indexed first x beforeComma behindComma y last =>
    have hx := bindingNames_beforeMark x beforeComma (c := ',') (by decide) (by decide) (by decide)
      (behindComma.text ++ y.text)
    rw [bindingNames_skip (by decide) (by decide), bindingNames_gap, hlast] at hx
    simpa only [LoopNames.inner, LoopNames.names, List.append_assoc, List.cons_append,
      List.nil_append] using hx

theorem bindingNames_field (field : Field) (gap : Gap) {c : Char}
    (hnumber : isNumberChar c = false) (hwhite : isWhite c = false) (hcolon : c ≠ ':')
    (rest : Text) :
    bindingNames (field.text ++ gap.text ++ c :: rest) =
      field.name :: bindingNames (c :: rest) := by
  cases field with
  | shorthand x => exact bindingNames_beforeMark x gap hnumber hwhite hcolon rest
  | named key beforeColon behindColon x =>
    have hx := bindingNames_beforeMark x gap hnumber hwhite hcolon rest
    have hkey := bindingNames_key key
      (headIs_isNameChar (headIs_gapMark beforeColon (by decide) (behindColon.text ++ (x.text ++
        gap.text ++ c :: rest))))
      (firstVisible?_gap beforeColon (c := ':') (by decide) _)
    rw [bindingNames_gap, bindingNames_skip (by decide) (by decide), bindingNames_gap, hx] at hkey
    simpa only [Field.text, Field.name, List.append_assoc, List.cons_append, List.nil_append]
      using hkey

theorem bindingNames_fields (fields : Fields) (rest : Text) :
    bindingNames (fields.text ++ '}' :: rest) = fields.names ++ bindingNames ('}' :: rest) := by
  induction fields with
  | none gap => exact bindingNames_gap gap _
  | last first field behind =>
    have hfield := bindingNames_field field behind (c := '}') (by decide) (by decide) (by decide)
      rest
    simpa only [Fields.text, Fields.names, List.append_assoc, List.singleton_append,
      bindingNames_gap] using hfield
  | more first field behind others ih =>
    have hfield := bindingNames_field field behind (c := ',') (by decide) (by decide) (by decide)
      (others.text ++ '}' :: rest)
    rw [bindingNames_skip (c := ',') (by decide) (by decide), ih] at hfield
    simpa only [Fields.text, Fields.names, List.append_assoc, List.cons_append, List.nil_append,
      bindingNames_gap] using hfield

/-- The parameters of a slot bind their names. -/
theorem bindingNames_params (params : Params) :
    bindingNames (trim (params.text?.getD [])) = params.names := by
  cases params with
  | none => simp [Params.text?, Params.names, trim, trimStart, trimEnd, bindingNames]
  | one x =>
    simp only [Params.text?, Params.names, Option.getD_some, trim_name]
    exact bindingNames_loop (.item x)
  | pattern fields =>
    have hfields := bindingNames_fields fields []
    rw [bindingNames_skip (by decide) (by decide)] at hfields
    have htrim : trim ('{' :: (fields.text ++ ['}'])) = '{' :: (fields.text ++ ['}']) :=
      trim_enclosed (by decide) (by decide) _
    simp only [Params.text?, Params.names, Option.getD_some, htrim]
    rw [bindingNames_skip (by decide) (by decide), hfields]
    simp [bindingNames]

end ModuleServer.Render.Lexical
