import ModuleServer.Proofs.Files.Tree

/-!
# Components of joined paths

A path that is followed from another adds its steps to those of the other (`components_join`). Below
a directory the address of a path is the directory's and the path's: what the segments of the path
lead to on an empty stack they lead to on top of the names of the directory (`segments?_behind`),
and separators around these are nothing (`names_stripBoth`). In general a path is followed part by
part where its parts meet at a separator (`Meet.climb?_append`).
-/

namespace ModuleServer

open Text

namespace Path

/-! ## Steps -/

/-- The steps of a path behind its start. -/
def steps (path : Path) : List Step :=
  (parts path).filterMap step?

/-- The step that the start of a path counts as, if it counts as one. -/
def lead (path : Path) : List Step :=
  if path.head? = some '/' then [.root]
  else if (parts path).head? = some ['.'] then [.here]
  else []

theorem components_eq (path : Path) : components path = lead path ++ steps path := by
  unfold components lead steps
  dsimp only
  split
  · rfl
  split
  · rfl
  · rfl

theorem Ordinary.step?_eq {segment : Text} (h : Ordinary segment) :
    step? segment = some (.entry segment) := by
  simp [step?, h.ne_nil, h.ne_here, h.ne_up]

theorem steps_join (base : Path) {path : Path} (hpath : path.head? ≠ some '/') :
    steps (join base path) = steps base ++ steps path := by
  have hnone : [([] : Text)].filterMap step? = [] := rfl
  unfold steps
  rcases parts_join base hpath with hparts | ⟨front, hbase, hparts⟩
  · rw [hparts, List.filterMap_append]
  · rw [hparts, hbase, List.filterMap_append, List.filterMap_append, hnone, List.append_nil]

theorem lead_join {base path : Path} (hbase : base ≠ []) (hpath : path.head? ≠ some '/') :
    lead (join base path) = lead base := by
  have hhead : (join base path).head? = base.head? := by
    obtain ⟨c, t, rfl⟩ := List.exists_cons_of_ne_nil hbase
    unfold join
    rw [if_neg hpath]
    split <;> rfl
  have hfirst : (parts (join base path)).head? = (parts base).head? := by
    rcases parts_join base hpath with hparts | ⟨front, hfront, hparts⟩
    · have hne : parts base ≠ [] := pieces_ne_nil _ base
      rw [hparts, List.head?_append_of_ne_nil _ hne]
    · have hne : front ≠ [] := by
        rintro rfl
        exact hbase (eq_nil_of_pieces hfront)
      rw [hparts, hfront, List.head?_append_of_ne_nil _ hne, List.head?_append_of_ne_nil _ hne]
  rw [lead, lead, hhead, hfirst]

/-- A relative path adds its steps to the components of the path that it is followed from. -/
theorem components_join {base path : Path} (hbase : base ≠ []) (hpath : path.head? ≠ some '/') :
    components (join base path) = components base ++ steps path := by
  rw [components_eq, components_eq, lead_join hbase hpath, steps_join base hpath,
    List.append_assoc]

/-- A name adds itself, also where it is followed from no path. -/
theorem Ordinary.components_join (base : Path) {segment : Text} (h : Ordinary segment) :
    components (join base segment) = components base ++ [.entry segment] := by
  have hsteps : steps segment = [.entry segment] := by
    rw [steps, h.parts_eq, List.filterMap_cons, h.step?_eq, List.filterMap_nil]
  by_cases hbase : base = []
  · subst hbase
    have hlead : lead segment = [] := by
      rw [lead, if_neg h.head?_ne, h.parts_eq, if_neg (by simpa using h.ne_here)]
    have hjoin : join [] segment = segment := by
      rw [join, if_neg h.head?_ne]
      rfl
    rw [hjoin, components_eq, hlead, hsteps]
    rfl
  · rw [Path.components_join hbase h.head?_ne, hsteps]

theorem components_foldl_join (base : Path) {segments : List Text}
    (h : ∀ s ∈ segments, Ordinary s) :
    components (segments.foldl join base) = components base ++ segments.map .entry := by
  induction segments generalizing base with
  | nil => simp
  | cons s segments ih =>
    obtain ⟨hs, hsegments⟩ := List.forall_mem_cons.1 h
    rw [List.foldl_cons, ih _ hsegments, hs.components_join, List.append_assoc, List.map_cons]
    rfl

/-! ## Names -/

/-- The names that stand between the separators of a path. -/
def names (path : Path) : List Text :=
  (pieces isSeparator path).filter isName

theorem ordinary_of_mem_names {path : Path} {name : Text} (h : name ∈ names path) :
    Ordinary name := by
  obtain ⟨hmem, hname⟩ := List.mem_filter.1 h
  simp only [isName, Bool.and_eq_true, decide_eq_true_eq] at hname
  exact ⟨hname.1.1, hname.1.2, hname.2, separator_of_mem_pieces hmem⟩

theorem pieces_eq_parts {path : Path} (hslash : '\\' ∉ path) :
    pieces isSeparator path = parts path := by
  refine pieces_congr fun c hc => ?_
  have hne : c ≠ '\\' := fun h => hslash (h ▸ hc)
  simp [isSeparator, hne]

/-- The steps of a path that never goes up are to its names. -/
theorem steps_eq_names {path : Path} (hslash : '\\' ∉ path) (hup : ['.', '.'] ∉ parts path) :
    steps path = (names path).map .entry := by
  rw [steps, names, pieces_eq_parts hslash]
  generalize parts path = segments at hup
  induction segments with
  | nil => rfl
  | cons s segments ih =>
    obtain ⟨hs, hsegments⟩ := not_or.1 (mt List.mem_cons.2 hup)
    have hcut : step? s = if isName s then some (.entry s) else none := by
      simp only [step?, isName]
      by_cases hnil : s = []
      · simp [hnil]
      by_cases hhere : s = ['.']
      · simp [hhere]
      · simp [hnil, hhere, Ne.symm hs]
    rw [List.filterMap_cons, hcut, List.filter_cons, ih hsegments]
    cases isName s <;> rfl

section Around

/-! What is picked from the pieces of a path does not change with separators around the path, as
long as no empty piece is picked. -/

variable {pick : Text → Bool} {run : Path}

theorem filter_pieces_of_separators (hpick : pick [] = false) (h : run.all isSeparator) :
    (pieces isSeparator run).filter pick = [] := by
  induction run with
  | nil => simp [pieces, hpick]
  | cons c run ih =>
    rw [List.all_cons, Bool.and_eq_true] at h
    have hcut : pieces isSeparator (c :: run) = [] :: pieces isSeparator run :=
      pieces_append h.1 [] run
    rw [hcut, List.filter_cons, hpick, ih h.2]
    rfl

theorem filter_pieces_append_separators (hpick : pick [] = false) (h : run.all isSeparator)
    (path : Path) :
    (pieces isSeparator (path ++ run)).filter pick = (pieces isSeparator path).filter pick := by
  cases run with
  | nil => rw [List.append_nil]
  | cons c run =>
    rw [List.all_cons, Bool.and_eq_true] at h
    rw [pieces_append h.1, List.filter_append, filter_pieces_of_separators hpick h.2,
      List.append_nil]

theorem filter_pieces_separators_append (hpick : pick [] = false) (h : run.all isSeparator)
    (path : Path) :
    (pieces isSeparator (run ++ path)).filter pick = (pieces isSeparator path).filter pick := by
  induction run with
  | nil => rfl
  | cons c run ih =>
    rw [List.all_cons, Bool.and_eq_true] at h
    have hcut : pieces isSeparator (c :: (run ++ path)) =
        [] :: pieces isSeparator (run ++ path) :=
      pieces_append h.1 [] (run ++ path)
    rw [List.cons_append, hcut, List.filter_cons, hpick, ← ih h.2]
    rfl

theorem filter_pieces_stripBoth (hpick : pick [] = false) {p : Char → Bool}
    (hp : ∀ c, p c → isSeparator c) (path : Path) :
    (pieces isSeparator (stripBoth p path)).filter pick =
      (pieces isSeparator path).filter pick := by
  have hall : ∀ t : Text, (t.takeWhile p).all isSeparator := by
    intro t
    rw [List.all_eq_true]
    intro c hc
    exact hp c (List.all_eq_true.1 List.all_takeWhile c hc)
  have hfirst : path.takeWhile p ++ path.dropWhile p = path := List.takeWhile_append_dropWhile
  have hlast : stripBoth p path ++ ((path.dropWhile p).reverse.takeWhile p).reverse =
      path.dropWhile p := by
    rw [stripBoth, ← List.reverse_append, List.takeWhile_append_dropWhile, List.reverse_reverse]
  have hlastAll : (((path.dropWhile p).reverse.takeWhile p).reverse).all isSeparator := by
    rw [List.all_reverse]
    exact hall _
  rw [← filter_pieces_append_separators hpick hlastAll, hlast,
    ← filter_pieces_separators_append hpick (hall path), hfirst]

/-- Separators in front of a path are no names. -/
theorem names_separators_append (h : run.all isSeparator) (path : Path) :
    names (run ++ path) = names path :=
  filter_pieces_separators_append rfl h path

/-- Separators around a path are no names. -/
theorem names_stripBoth {p : Char → Bool} (hp : ∀ c, p c → isSeparator c) (path : Path) :
    names (stripBoth p path) = names path :=
  filter_pieces_stripBoth rfl hp path

/-- Stripping separators takes away empty pieces alone. -/
theorem mem_pieces_stripBoth {p : Char → Bool} (hp : ∀ c, p c → isSeparator c) {path : Path}
    {segment : Text} (hne : segment ≠ []) :
    segment ∈ pieces isSeparator (stripBoth p path) ↔ segment ∈ pieces isSeparator path := by
  have hpick : (fun s : Text => decide (s = segment)) [] = false := decide_eq_false hne.symm
  have hmem : ∀ segments : List Text,
      segment ∈ segments ↔ segment ∈ segments.filter fun s => decide (s = segment) := by
    intro segments
    simp
  rw [hmem, filter_pieces_stripBoth hpick hp path, ← hmem]

end Around

/-! ## Climbing -/

section Climb

variable {segments stack out : List Text}

theorem climb?_nil_cons : climb? stack ([] :: segments) = climb? stack segments :=
  if_pos (.inl rfl)

theorem Ordinary.climb?_cons {name : Text} (h : Ordinary name) :
    climb? stack (name :: segments) = climb? (name :: stack) segments := by
  have hidle : ¬(name = [] ∨ name = ['.']) := not_or.2 ⟨h.ne_nil, h.ne_here⟩
  simp only [climb?, if_neg hidle, if_neg h.ne_up]

/-- Segments are followed one after the other. -/
theorem climb?_append (stack front rest : List Text) :
    climb? stack (front ++ rest) = (climb? stack front).bind fun next => climb? next rest := by
  induction front generalizing stack with
  | nil => rfl
  | cons s front ih =>
    simp only [List.cons_append, climb?]
    split
    · exact ih stack
    split
    · cases stack with
      | nil => rfl
      | cons top stack => exact ih stack
    · exact ih (s :: stack)

/-- What is on the stack below makes no difference to segments that never get there. -/
theorem climb?_append_stack (below : List Text) (h : climb? stack segments = some out) :
    climb? (stack ++ below) segments = some (out ++ below) := by
  induction segments generalizing stack with
  | nil =>
    obtain rfl := Option.some.inj h
    rfl
  | cons s segments ih =>
    simp only [climb?] at h ⊢
    split at h
    · rename_i hidle
      rw [if_pos hidle]
      exact ih h
    · rename_i hidle
      rw [if_neg hidle]
      split at h
      · rename_i hup
        rw [if_pos hup]
        cases stack with
        | nil => cases h
        | cons top stack => exact ih h
      · rename_i hup
        rw [if_neg hup]
        exact ih h

/-- Segments that never go up put their names on the stack. -/
theorem climb?_of_no_up (hup : ['.', '.'] ∉ segments) (stack rest : List Text) :
    climb? stack (segments ++ rest) = climb? ((segments.filter isName).reverse ++ stack) rest := by
  induction segments generalizing stack with
  | nil => rfl
  | cons s segments ih =>
    obtain ⟨hs, hsegments⟩ := not_or.1 (mt List.mem_cons.2 hup)
    simp only [List.cons_append, climb?, List.filter_cons]
    split
    · rename_i hidle
      have hname : isName s = false := by
        rcases hidle with rfl | rfl <;> rfl
      rw [ih hsegments, hname]
      rfl
    · rename_i hidle
      have hname : isName s = true := by
        obtain ⟨hnil, hhere⟩ := not_or.1 hidle
        simp [isName, hnil, hhere, Ne.symm hs]
      rw [if_neg (Ne.symm hs), ih hsegments, hname, if_pos rfl, List.reverse_cons,
        List.append_assoc]
      rfl

/-- Segments that lead out of where they start do not depend on the name before it, which they
leave. -/
theorem climb?_replace (h : climb? stack segments = none) (x y : Text) (below : List Text) :
    climb? (stack ++ x :: below) segments = climb? (stack ++ y :: below) segments := by
  induction segments generalizing stack with
  | nil => cases h
  | cons s segments ih =>
    simp only [climb?] at h ⊢
    split at h
    · rename_i hidle
      rw [if_pos hidle, if_pos hidle]
      exact ih h
    · rename_i hidle
      rw [if_neg hidle, if_neg hidle]
      split at h
      · rename_i hup
        rw [if_pos hup, if_pos hup]
        cases stack with
        | nil => rfl
        | cons top stack => exact ih h
      · rename_i hup
        rw [if_neg hup, if_neg hup]
        exact ih h

end Climb

/-! ## Following paths -/

/-- No name goes on from one text into the other. -/
def Meet (u t : Path) : Prop :=
  u = [] ∨ (∃ front c, isSeparator c ∧ u = front ++ [c]) ∨ t = [] ∨
    ∃ c rest, isSeparator c ∧ t = c :: rest

/-- Paths that meet are followed one after the other. -/
theorem Meet.climb?_append {u t : Path} (h : Meet u t) (stack : List Text) :
    climb? stack (pieces isSeparator (u ++ t)) =
      (climb? stack (pieces isSeparator u)).bind fun next =>
        climb? next (pieces isSeparator t) := by
  rcases h with rfl | ⟨front, c, hc, rfl⟩ | rfl | ⟨c, rest, hc, rfl⟩
  · rfl
  · rw [List.append_assoc, List.singleton_append, pieces_append hc, pieces_append hc,
      Path.climb?_append, Path.climb?_append]
    cases climb? stack (pieces isSeparator front) with
    | none => rfl
    | some next => rfl
  · rw [List.append_nil]
    cases climb? stack (pieces isSeparator u) with
    | none => rfl
    | some next => rfl
  · have hcut : pieces isSeparator (c :: rest) = [] :: pieces isSeparator rest :=
      pieces_append hc [] rest
    simp only [pieces_append hc, Path.climb?_append, hcut, climb?_nil_cons]

/-- From one directory different names lead to different places. -/
theorem segments?_eq_of_underRoot? {root p q file : Path} (hp : underRoot? root p = some file)
    (hq : underRoot? root q = some file) : segments? p = segments? q := by
  obtain ⟨names, hnames, rfl⟩ := Option.map_eq_some_iff.1 hp
  obtain ⟨names', hnames', heq⟩ := Option.map_eq_some_iff.1 hq
  have hcomponents := congrArg components heq
  rw [components_foldl_join root (ordinary_of_segments? hnames'),
    components_foldl_join root (ordinary_of_segments? hnames),
    List.append_cancel_left_eq] at hcomponents
  have hinj : Function.Injective Step.entry := fun _ _ h => Step.entry.inj h
  rw [hnames, hnames', List.map_injective_iff.2 hinj hcomponents]

/-- A name that comes last is what a path leads to. -/
theorem fileName?_of_last {root path file : Path} {before : List Text} {name : Text}
    (hpieces : pieces isSeparator path = before ++ [name]) (hname : Ordinary name)
    (h : underRoot? root path = some file) : fileName? file = some name := by
  obtain ⟨names, hnames, rfl⟩ := Option.map_eq_some_iff.1 h
  have hordinary := ordinary_of_segments? hnames
  obtain ⟨stack, hstack, rfl⟩ := Option.map_eq_some_iff.1 hnames
  rw [hpieces, climb?_append] at hstack
  obtain ⟨next, -, hlast⟩ := Option.bind_eq_some_iff.1 hstack
  rw [hname.climb?_cons] at hlast
  cases hlast
  rw [fileName?, components_foldl_join root hordinary]
  simp

/-- Behind the names of a directory a path leads through its own segments. -/
theorem segments?_behind {dir path : Path} {segments : List Text}
    (hup : ['.', '.'] ∉ pieces isSeparator dir) (h : segments? path = some segments) :
    segments? (dir ++ '/' :: path) = some (names dir ++ segments) := by
  obtain ⟨stack, hstack, rfl⟩ := Option.map_eq_some_iff.1 h
  have hsep : isSeparator '/' = true := by decide
  rw [segments?, pieces_append hsep, climb?_of_no_up hup, List.append_nil]
  have hclimb := climb?_append_stack (names dir).reverse hstack
  rw [List.nil_append] at hclimb
  rw [← names, hclimb, Option.map_some, List.reverse_append, List.reverse_reverse]

end Path

end ModuleServer
