import ModuleServer.Proofs.Component.Link
import ModuleServer.Proofs.Import.Pass

/-!
# The first line of a main module

What resolving imports does to the line that imports the render function. Its statement is found, and
its address names no package, so the step for clauses leaves it alone. The other step takes the
address for code: a path may hold semicolons and single quotes, and what stands between them may be
the word for imports and a literal.

* `exists_segmentsFrom_append`: a text is cut as if it stood alone if no statement reaches over its
  end.
* `starts_of_append`: no statement reaches over the end of an encoded path in a main module.
* `resolveAll_firstLine`: so the line is left as it is, but for specifiers found in the path itself.
-/

namespace ModuleServer.Import

open Text

variable {σ ε : Type} {resolve : Resolution σ ε} {s : σ}

/-! ## Cutting a text that stands before another -/

/-- A text before another is cut as if it stood alone, as long as no statement that starts in it
needs what stands behind it. -/
theorem exists_segmentsFrom_append {form : Form} {w tail : Text} (atStart : Bool)
    (hseam : ∀ x, x <:+ w → Starts form (x ++ tail) → Starts form x) :
    ∃ atStart', segmentsFrom form atStart (w ++ tail) =
      segmentsFrom form atStart w ++ segmentsFrom form atStart' tail := by
  fun_induction segmentsFrom form atStart w with
  | case1 atStart => exact ⟨atStart, rfl⟩
  | case2 atStart c r l h ih =>
    split at h
    · rename_i hstart
      subst hstart
      obtain ⟨hfound, hsource⟩ := statement?_eq_some_iff.1 h
      have hsuffix : l.after <:+ c :: r := by
        rw [← hsource]
        exact ⟨l.before ++ l.content ++ [l.quote], by simp [Literal.source]⟩
      obtain ⟨atStart', hrest⟩ := ih fun x hx => hseam x (hx.trans hsuffix)
      have hlonger : Literal.Found form ⟨l.before, l.content, l.after ++ tail, l.quote⟩ :=
        ⟨hfound.head, hfound.quote, hfound.closes⟩
      have hcode : c :: r ++ tail =
          Literal.source ⟨l.before, l.content, l.after ++ tail, l.quote⟩ := by
        rw [← hsource]
        simp [Literal.source]
      refine ⟨atStart', ?_⟩
      rw [hcode, segmentsFrom_source hlonger, hrest]
      rfl
    · simp at h
  | case3 atStart c r h ih =>
    obtain ⟨atStart', hrest⟩ := ih fun x hx => hseam x (hx.trans (List.suffix_cons c r))
    refine ⟨atStart', ?_⟩
    have hhere : (if atStart then statement? form (c :: (r ++ tail)) else none) = none := by
      split
      · rename_i hstart
        rw [dif_pos hstart] at h
        refine statement?_eq_none_iff.2 fun hstarts => ?_
        exact statement?_eq_none_iff.1 h (hseam (c :: r) List.suffix_rfl hstarts)
      · rfl
    rw [List.cons_append, segmentsFrom]
    split
    · rename_i l hl
      rw [hhere] at hl
      cases hl
    · rw [hrest]
      rfl

/-- A segment that is resolved has a text and a state behind it, whatever follows. -/
theorem resolveSegments_cons_eq_ok {seg : Segment} {segs : List Segment} {s s' : σ} {code : Text}
    (h : resolveSegments resolve (seg :: segs) s = (.ok code, s')) :
    ∃ t s₁ rest, resolveSegments resolve segs s₁ = (.ok rest, s') ∧ code = t ++ rest ∧
      ∀ others, resolveSegments resolve (seg :: others) s =
        ((resolveSegments resolve others s₁).1.map (t ++ ·),
          (resolveSegments resolve others s₁).2) := by
  have hinvert : ∀ t s₁, (∀ others, resolveSegments resolve (seg :: others) s =
      ((resolveSegments resolve others s₁).1.map (t ++ ·), (resolveSegments resolve others s₁).2)) →
      ∃ t s₁ rest, resolveSegments resolve segs s₁ = (.ok rest, s') ∧ code = t ++ rest ∧
        ∀ others, resolveSegments resolve (seg :: others) s =
          ((resolveSegments resolve others s₁).1.map (t ++ ·),
            (resolveSegments resolve others s₁).2) := by
    intro t s₁ hothers
    rw [hothers] at h
    rcases hrest : resolveSegments resolve segs s₁ with ⟨_ | rest, s₂⟩
    · rw [hrest] at h
      cases h
    · rw [hrest] at h
      cases h
      exact ⟨t, s₁, rest, hrest, rfl, hothers⟩
  cases seg with
  | verbatim t => exact hinvert t s fun _ => rfl
  | specifier spec =>
    by_cases hbare : Specifier.isBare spec
    · rcases hr : resolve spec s with ⟨_ | url, s₁⟩
      · rw [resolveSegments, if_pos hbare, hr] at h
        cases h
      · refine hinvert url s₁ fun others => ?_
        rw [resolveSegments, if_pos hbare, hr]
    · refine hinvert spec s fun others => ?_
      rw [resolveSegments, if_neg hbare]

/-- Segments are resolved one after the other. -/
theorem resolveSegments_append_eq_ok {front rest : List Segment} {s s' : σ} {code : Text}
    (h : resolveSegments resolve (front ++ rest) s = (.ok code, s')) :
    ∃ a s₁ b, resolveSegments resolve front s = (.ok a, s₁) ∧
      resolveSegments resolve rest s₁ = (.ok b, s') ∧ code = a ++ b := by
  induction front generalizing s code with
  | nil => exact ⟨[], s, code, rfl, h, rfl⟩
  | cons seg front ih =>
    obtain ⟨t, s₁, code₁, hcode₁, rfl, hothers⟩ := resolveSegments_cons_eq_ok h
    obtain ⟨a, s₂, b, ha, hb, rfl⟩ := ih hcode₁
    refine ⟨t ++ a, s₂, b, ?_, hb, (List.append_assoc ..).symm⟩
    rw [hothers, ha]
    rfl

/-! ## The line -/

/-- What stands before the address in the first line of a main module is the head of a statement. -/
theorem isHead_importStart :
    ∃ head, IsHead .clause head ∧ Component.importStart = head ++ ['"'] := by
  have hfree : " \x7b render as _sfc_render \x7d ".toList.all fun c => !endsClause c := by decide
  have hhead : IsHead .clause
      (importWord ++ " \x7b render as _sfc_render \x7d ".toList ++ fromWord ++ [' ']) :=
    .clause (.inl rfl) (fun c hc => by simpa using List.all_eq_true.1 hfree c hc)
      ⟨' ', rfl, by decide⟩ ⟨' ', rfl, by decide⟩ (List.all_eq_true.1 (by decide))
  exact ⟨_, hhead, rfl⟩

/-- The first line of a main module is no statement without a clause. -/
theorem not_starts_importStart (t : Text) : ¬ Starts .sideEffect (Component.importStart ++ t) :=
  statement?_eq_none_iff.1 rfl

/-- Behind the start of a text without line feeds and semicolons no statement starts, unless it is
all blanks. -/
theorem eq_nil_of_opens {first : Bool} {u : Text} (hline : '\n' ∉ u) (hsemicolon : ';' ∉ u)
    (hstart : headIs isBlank u = false) (h : Opens first u) : u = [] := by
  obtain ⟨w, gap, rfl, hgap, hw⟩ := h
  rcases hw with ⟨rfl, -⟩ | hw | hw
  · cases gap with
    | nil => rfl
    | cons c gap =>
      have hc : isBlank c = false := hstart
      exact absurd ((hgap c List.mem_cons_self).symm.trans hc) Bool.noConfusion
  · exact absurd (List.mem_append_left _ (List.mem_of_getLast? hw)) hline
  · exact absurd (List.mem_append_left _ (List.mem_of_getLast? hw)) hsemicolon

/-- The step for statements without a clause copies what stands before the address. -/
theorem segments_importStart (t : Text) : segments .sideEffect (Component.importStart ++ t) =
    Component.importStart.map (fun c => .verbatim [c]) ++ segmentsFrom .sideEffect false t := by
  refine segmentsFrom_plain _ true fun u v huv _ hopens => ?_
  obtain rfl : u = [] := by
    refine eq_nil_of_opens (fun h => ?_) (fun h => ?_) ?_ hopens
    · exact absurd (huv ▸ List.mem_append_left v h) (by decide)
    · exact absurd (huv ▸ List.mem_append_left v h) (by decide)
    · cases u with
      | nil => rfl
      | cons d u =>
        obtain ⟨rfl, -⟩ := List.cons.inj huv
        rfl
  rw [List.nil_append] at huv
  rw [huv]
  exact not_starts_importStart _

/-- A line without semicolons that is not taken for a statement from its start has none in it. -/
theorem exists_segmentsFrom_line {form : Form} {line : Text} (atStart : Bool) (behind : Text)
    (hline : '\n' ∉ line) (hsemicolon : ';' ∉ line) (hblank : headIs isBlank line = false)
    (hstart : ¬ Starts form (line ++ '\n' :: behind)) : ∃ rest,
      segmentsFrom form atStart (line ++ '\n' :: behind) =
        (line ++ ['\n']).map (fun c => .verbatim [c]) ++ rest := by
  have hcode : line ++ '\n' :: behind = line ++ ['\n'] ++ behind := by simp
  rw [hcode]
  refine ⟨_, segmentsFrom_plain _ atStart ?_⟩
  intro u v huv hv hopens
  -- what stands before is a proper part of the line
  obtain ⟨v, c, rfl⟩ := (List.eq_nil_or_concat v).resolve_left hv
  have hu : u ++ v = line := by
    rw [List.concat_eq_append, ← List.append_assoc] at huv
    exact (List.append_inj' huv rfl).1
  obtain rfl : u = [] := by
    refine eq_nil_of_opens (fun h => hline ?_) (fun h => hsemicolon ?_) ?_ hopens
    · rw [← hu]
      exact List.mem_append_left _ h
    · rw [← hu]
      exact List.mem_append_left _ h
    · cases u with
      | nil => rfl
      | cons d u =>
        rw [← hu] at hblank
        exact hblank
  rw [List.nil_append] at huv
  rw [huv, ← hcode]
  exact hstart

/-- There is no question mark before the literal of a statement without a clause. -/
theorem mark_not_mem_before {l : Literal} (h : l.Found .sideEffect) : '?' ∉ l.before := by
  obtain ⟨⟨head, hhead, hbefore⟩, hquote, -⟩ := h
  rw [hbefore, List.mem_append, List.mem_singleton, not_or]
  constructor
  · cases hhead with
    | sideEffect hgap =>
      rw [List.mem_append, not_or]
      exact ⟨by decide, fun h => absurd (hgap _ h) (by decide)⟩
  · intro hmark
    rw [← hmark] at hquote
    exact absurd hquote (by decide)

/-- No statement without a clause that starts in a text without double quotes reaches over its end,
if what stands behind it, up to the end of the line, has no single quote and starts with a question
mark. -/
theorem starts_of_append {x query behind : Text} (hquote : '"' ∉ x) (hsingle : '\'' ∉ query)
    (hline : '\n' ∉ query)
    (h : Starts .sideEffect (x ++ ('?' :: query ++ '\n' :: behind))) : Starts .sideEffect x := by
  obtain ⟨⟨before, content, after, quote⟩, hfound, hsource⟩ := h
  obtain ⟨⟨head, hhead, hbefore⟩, hisQuote, hcloses⟩ := id hfound
  simp only [Literal.source, List.append_assoc] at hsource
  obtain ⟨y, rfl, hrest⟩ : ∃ y, x = before ++ y ∧
      content ++ quote :: after = y ++ ('?' :: query ++ '\n' :: behind) := by
    rcases List.append_eq_append_iff.1 hsource with ⟨y, hx, hrest⟩ | ⟨y, hx, hrest⟩
    · exact ⟨y, hx, hrest⟩
    · cases y with
      | nil => exact ⟨[], by rw [hx, List.append_nil, List.append_nil], hrest.symm⟩
      | cons c y =>
        obtain rfl : '?' = c := (List.cons.inj hrest).1
        have hmark : '?' ∉ before := mark_not_mem_before hfound
        exact absurd (by rw [hx]; simp) hmark
  obtain rfl : quote = '\'' := by
    refine (isQuote_iff.1 hisQuote).resolve_left ?_
    rintro rfl
    have hmem : '"' ∈ before := by
      rw [show before = head ++ ['"'] from hbefore]
      simp
    exact hquote (List.mem_append_left _ hmem)
  rcases List.append_eq_append_iff.1 hrest with ⟨z, rfl, hafter⟩ | ⟨z, rfl, hafter⟩
  · cases z with
    | nil => cases hafter
    | cons c z =>
      obtain rfl : '\'' = c := (List.cons.inj hafter).1
      refine ⟨⟨before, content, z, '\''⟩, ⟨⟨head, hhead, hbefore⟩, hisQuote, hcloses⟩, ?_⟩
      simp [Literal.source]
  · -- the literal would have to close before its line ends
    have hcontent : ∀ c ∈ z, (c = '\'' || c = '\n') = false := by
      intro c hc
      have hcloses := hcloses c (List.mem_append_right _ hc)
      simp [hcloses.1, hcloses.2]
    have hquery : ∀ c ∈ '?' :: query, (c = '\'' || c = '\n') = false := by
      intro c hc
      rw [Bool.or_eq_false_iff, decide_eq_false_iff_not, decide_eq_false_iff_not]
      constructor
      · rintro rfl
        exact hsingle (by simpa using hc)
      · rintro rfl
        exact hline (by simpa using hc)
    have hends := eq_of_first (p := fun c => c = '\'' || c = '\n') hafter.symm hcontent hquery
      (by decide) (by decide)
    exact absurd hends.2.1 (by decide)

/-! ## Both steps -/

section FirstLine

variable {url query : Text} (behind : Text)

/-- The step for clauses finds the statement in the first line, and its address is not bare. -/
theorem exists_replace_clause {code' : Text} {s' : σ} (hslash : url.head? = some '/')
    (hquote : '"' ∉ url) (hline : '\n' ∉ url)
    (h : replace .clause resolve (Component.importStart ++ url ++ ['"', '\n'] ++ behind) s =
      (.ok code', s')) :
    ∃ behind', code' = Component.importStart ++ url ++ ['"', '\n'] ++ behind' := by
  obtain ⟨head, hhead, hstart⟩ := isHead_importStart
  have hfound : Literal.Found .clause ⟨Component.importStart, url, '\n' :: behind, '"'⟩ := by
    refine ⟨⟨head, hhead, hstart⟩, rfl, fun c hc => ⟨?_, ?_⟩⟩
    · rintro rfl
      exact hquote hc
    · rintro rfl
      exact hline hc
  have hsource : Component.importStart ++ url ++ ['"', '\n'] ++ behind =
      Literal.source ⟨Component.importStart, url, '\n' :: behind, '"'⟩ := by
    simp [Literal.source]
  have hbare : Specifier.isBare url = false := by
    simp [Specifier.isBare, hslash]
  have hsegments : segments .clause (Component.importStart ++ url ++ ['"', '\n'] ++ behind) =
      [.verbatim Component.importStart, .specifier url, .verbatim ['"'], .verbatim ['\n']] ++
        segmentsFrom .clause true behind := by
    rw [segments, hsource, segmentsFrom_source hfound, segmentsFrom]
    rfl
  rw [replace, hsegments] at h
  obtain ⟨a, s₁, b, ha, -, rfl⟩ := resolveSegments_append_eq_ok h
  rw [resolveSegments_eq_self resolve (by simp [hbare])] at ha
  cases ha
  exact ⟨b, by simp [Segment.text]⟩

/-- The step for statements without a clause takes the address for code, and cuts the part before
the question mark as if it stood alone. -/
theorem exists_replace_sideEffect {code' : Text} {s' : σ} (hquote : '"' ∉ url)
    (hsingle : '\'' ∉ query) (hline : '\n' ∉ query) (hsemicolon : ';' ∉ query)
    (h : replace .sideEffect resolve
      (Component.importStart ++ (url ++ '?' :: query) ++ ['"', '\n'] ++ behind) s =
        (.ok code', s')) :
    ∃ url' s₁ behind',
      resolveSegments resolve (segmentsFrom .sideEffect false url) s = (.ok url', s₁) ∧
        code' = Component.importStart ++ (url' ++ '?' :: query) ++ ['"', '\n'] ++ behind' := by
  have hcode : Component.importStart ++ (url ++ '?' :: query) ++ ['"', '\n'] ++ behind =
      Component.importStart ++ (url ++ ('?' :: (query ++ ['"']) ++ '\n' :: behind)) := by
    simp
  have hseam : ∀ x, x <:+ url →
      Starts .sideEffect (x ++ ('?' :: (query ++ ['"']) ++ '\n' :: behind)) →
        Starts .sideEffect x := by
    intro x hx hstarts
    exact starts_of_append (fun h => hquote (hx.subset h)) (by simpa using hsingle)
      (by simpa using hline) hstarts
  obtain ⟨atStart, hurl⟩ := exists_segmentsFrom_append false hseam
  have hnone : ¬ Starts .sideEffect ('?' :: (query ++ ['"']) ++ '\n' :: behind) :=
    statement?_eq_none_iff.1 rfl
  obtain ⟨rest, hrest⟩ := exists_segmentsFrom_line atStart behind (by simpa using hline)
    (by simpa using hsemicolon) rfl hnone
  rw [replace, hcode, segments_importStart, hurl, hrest] at h
  -- the start of the line is copied, the path is resolved by itself, and the rest is copied
  obtain ⟨a, s₁, b, ha, hb, rfl⟩ := resolveSegments_append_eq_ok h
  obtain ⟨url', s₂, c, hurl', hc, rfl⟩ := resolveSegments_append_eq_ok hb
  obtain ⟨d, s₃, behind', hd, -, rfl⟩ := resolveSegments_append_eq_ok hc
  rw [resolveSegments_eq_self resolve (by simp)] at ha hd
  cases ha
  cases hd
  exact ⟨url', s₂, behind', hurl', by simp [List.flatMap_map, Segment.text]⟩

/-- Resolving imports leaves the first line of a main module as it is, but for what the step for
statements without a clause finds in the address before the question mark. -/
theorem resolveAll_firstLine {code' : Text} {s' : σ} (hslash : url.head? = some '/')
    (hquote : '"' ∉ url) (hline : '\n' ∉ url) (hquoteQuery : '"' ∉ query)
    (hsingleQuery : '\'' ∉ query) (hlineQuery : '\n' ∉ query) (hsemicolonQuery : ';' ∉ query)
    (h : resolveAll resolve
      (Component.importStart ++ (url ++ '?' :: query) ++ ['"', '\n'] ++ behind) s =
        (.ok code', s')) :
    ∃ code₁ s₁ url' s₂ behind',
      replace .clause resolve
        (Component.importStart ++ (url ++ '?' :: query) ++ ['"', '\n'] ++ behind) s =
          (.ok code₁, s₁) ∧
      resolveSegments resolve (segmentsFrom .sideEffect false url) s₁ = (.ok url', s₂) ∧
      code' = Component.importStart ++ (url' ++ '?' :: query) ++ ['"', '\n'] ++ behind' := by
  rw [resolveAll] at h
  rcases hreplace : replace .clause resolve
      (Component.importStart ++ (url ++ '?' :: query) ++ ['"', '\n'] ++ behind) s
    with ⟨_ | code₁, s₁⟩
  · rw [hreplace] at h
    cases h
  · rw [hreplace] at h
    have hslash' : (url ++ '?' :: query).head? = some '/' := by
      rw [List.head?_append, hslash]
      rfl
    obtain ⟨behind₁, rfl⟩ := exists_replace_clause behind hslash' (by simp [hquote, hquoteQuery])
      (by simp [hline, hlineQuery]) hreplace
    obtain ⟨url', s₂, behind₂, hurl', hcode'⟩ := exists_replace_sideEffect behind₁ hquote
      hsingleQuery hlineQuery hsemicolonQuery h
    exact ⟨_, s₁, url', s₂, behind₂, rfl, hurl', hcode'⟩

end FirstLine

/-! ## The path in the line -/

/-- The bare specifiers that are found in what is written for a path, as if it were code. -/
def mistaken (path : Text) : List Text :=
  (segmentsFrom .sideEffect false (Component.encodePath path)).filterMap fun
    | .specifier spec => if Specifier.isBare spec then some spec else none
    | .verbatim _ => none

theorem mistaken_eq_nil_iff {path : Text} : mistaken path = [] ↔
    ∀ spec, .specifier spec ∈ segmentsFrom .sideEffect false (Component.encodePath path) →
      Specifier.isBare spec = false := by
  rw [mistaken, List.filterMap_eq_nil_iff]
  constructor
  · intro h spec hspec
    simpa using h _ hspec
  · intro h seg hseg
    cases seg with
    | verbatim t => rfl
    | specifier spec => simp [h spec hseg]

/-- What is written for a path holds a semicolon only if the path does. -/
theorem semicolon_not_mem_encodePath {path : Text} (h : ';' ∉ path) :
    ';' ∉ Component.encodePath path := by
  have hhex : ∀ n < 16, ';' ≠ Component.hexDigit n := by decide
  intro hmem
  rcases Component.of_mem_encodePath hmem with ⟨hpath, -⟩ | hpercent | ⟨n, hn, hdigit⟩
  · exact h hpath
  · exact absurd hpercent (by decide)
  · exact hhex n hn hdigit

theorem line_not_mem_encodePath (path : Text) : '\n' ∉ Component.encodePath path :=
  Component.not_mem_encodePath (by decide) (by decide) path

/-- In a path without semicolons nothing is mistaken. -/
theorem mistaken_eq_nil {path : Text} (h : ';' ∉ path) : mistaken path = [] := by
  have hsemicolon := semicolon_not_mem_encodePath h
  have hline := line_not_mem_encodePath path
  have hstarts : ∀ u v, u ++ v = Component.encodePath path → v ≠ [] → Opens false u →
      ¬ Starts .sideEffect (v ++ []) := by
    intro u v huv _ hopens
    obtain ⟨w, gap, rfl, -, hw⟩ := hopens
    rw [← huv] at hsemicolon hline
    rcases hw with ⟨-, hfirst⟩ | hw | hw
    · cases hfirst
    · exact absurd (List.mem_of_getLast? hw) (fun hmem => hline (by simp [hmem]))
    · exact absurd (List.mem_of_getLast? hw) (fun hmem => hsemicolon (by simp [hmem]))
  have hplain := segmentsFrom_plain _ false hstarts
  rw [mistaken_eq_nil_iff]
  intro spec hspec
  rw [List.append_nil] at hplain
  rw [hplain, segmentsFrom, List.append_nil] at hspec
  simp at hspec

/-- What is written for a path in which nothing is mistaken is left as it is. -/
theorem eq_of_mistaken_eq_nil {path path' : Text} {s' : σ} (hnone : mistaken path = [])
    (h : resolveSegments resolve (segmentsFrom .sideEffect false (Component.encodePath path)) s =
      (.ok path', s')) : path' = Component.encodePath path := by
  rw [resolveSegments_eq_self resolve (mistaken_eq_nil_iff.1 hnone),
    flatMap_text_segmentsFrom] at h
  exact (Except.ok.inj (Prod.mk.inj h).1).symm

/-- Resolving imports leaves the line that imports the render function as it is, but for specifiers
found in the path. -/
theorem resolveAll_templateUrl {path behind code' : Text} {token : Nat} {s' : σ}
    (hslash : path.head? = some '/')
    (h : resolveAll resolve
      (Component.importStart ++ Component.templateUrl path token ++ ['"', '\n'] ++ behind) s =
        (.ok code', s')) :
    ∃ code₁ s₁ path' s₂ behind',
      replace .clause resolve
        (Component.importStart ++ Component.templateUrl path token ++ ['"', '\n'] ++ behind) s =
          (.ok code₁, s₁) ∧
      resolveSegments resolve (segmentsFrom .sideEffect false (Component.encodePath path)) s₁ =
        (.ok path', s₂) ∧
      (mistaken path = [] → path' = Component.encodePath path) ∧
      code' = Component.importStart ++
        (path' ++ "?type=template&d=".toList ++ decimal token) ++ ['"', '\n'] ++ behind' := by
  have hurl : ∀ path', path' ++ "?type=template&d=".toList ++ decimal token =
      path' ++ '?' :: ("type=template&d=".toList ++ decimal token) := by
    intro path'
    rw [List.append_assoc]
    rfl
  have hquery : ∀ c, c ∉ "type=template&d=".toList → c.isAlphanum = false →
      c ∉ "type=template&d=".toList ++ decimal token := by
    intro c hfixed hc hmem
    rcases List.mem_append.1 hmem with hmem | hmem
    · exact hfixed hmem
    · have htrue := List.all_eq_true.1 (Component.all_isAlphanum_decimal token) c hmem
      rw [hc] at htrue
      cases htrue
  have hslash' : (Component.encodePath path).head? = some '/' := by
    obtain ⟨rest, rfl⟩ : ∃ rest, path = '/' :: rest := by
      cases path with
      | nil => cases hslash
      | cons c rest => exact ⟨rest, by simpa using hslash⟩
    rfl
  have hquote : '"' ∉ Component.encodePath path :=
    Component.not_mem_encodePath (by decide) (by decide) path
  rw [Component.templateUrl, hurl] at h ⊢
  obtain ⟨code₁, s₁, path', s₂, behind', hclause, hpath, hcode⟩ := resolveAll_firstLine behind
    hslash' hquote (line_not_mem_encodePath path) (hquery _ (by decide) (by decide))
    (hquery _ (by decide) (by decide)) (hquery _ (by decide) (by decide))
    (hquery _ (by decide) (by decide)) h
  exact ⟨code₁, s₁, path', s₂, behind', hclause, hpath,
    fun hnone => eq_of_mistaken_eq_nil hnone hpath, by rw [hcode, hurl]⟩

end ModuleServer.Import
