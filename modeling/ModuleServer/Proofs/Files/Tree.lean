import ModuleServer.Files.Tree
import ModuleServer.Proofs.Files.Path

/-!
# Trees that agree below a path

Two trees are compared by what can be read in them. They agree below a base (`AgreeBelow`) if every
path that extends the base by ordinary segments leads to the same file in both, or to none in
either. That is so in particular if the base leads to the same entry in both
(`agreeBelow_of_entry`): ordinary segments only go down from there. In the empty folder there is
nothing to compare (`readBytes_empty`).
-/

namespace ModuleServer

open Text

namespace Path

/-! ## Parts of a path -/

theorem Ordinary.parts_eq {segment : Text} (h : Ordinary segment) : parts segment = [segment] := by
  apply pieces_of_no_separator
  intro c hc
  have hsep := h.no_separator c hc
  simp only [isSeparator, Bool.or_eq_false_iff] at hsep
  exact hsep.1

/-- A path is continued by the parts of another, the first of which may take the place of an empty
part at its end. -/
theorem parts_join (base : Path) {path : Path} (hpath : path.head? ≠ some '/') :
    parts (join base path) = parts base ++ parts path ∨
      ∃ front, parts base = front ++ [[]] ∧ parts (join base path) = front ++ parts path := by
  have hsep : (fun c : Char => decide (c = '/')) '/' = true := by decide
  unfold join
  rw [if_neg hpath]
  split
  · right
    rename_i hend
    rcases Bool.or_eq_true_iff.1 hend with hnil | hlast
    · rw [List.isEmpty_iff] at hnil
      subst hnil
      exact ⟨[], rfl, rfl⟩
    · obtain ⟨front, rfl⟩ := List.getLast?_eq_some_iff.1 (of_decide_eq_true hlast)
      refine ⟨parts front, pieces_append hsep front [], ?_⟩
      rw [List.append_assoc, List.singleton_append]
      exact pieces_append hsep front path
  · left
    exact pieces_append hsep base path

theorem Ordinary.head?_ne {segment : Text} (h : Ordinary segment) : segment.head? ≠ some '/' := by
  intro hhead
  exact absurd (h.no_separator '/' (List.mem_of_mem_head? hhead)) (by decide)

/-- A path is continued by one more part, which may take the place of an empty one at its end. -/
theorem Ordinary.parts_join (base : Path) {segment : Text} (h : Ordinary segment) :
    parts (join base segment) = parts base ++ [segment] ∨
      ∃ front, parts base = front ++ [[]] ∧ parts (join base segment) = front ++ [segment] := by
  rw [← h.parts_eq]
  exact Path.parts_join base h.head?_ne

end Path

namespace FileTree

/-! ## Going down -/

/-- The entry of a name in a folder. -/
def enter (name : Text) : FileTree → Except ReadError FileTree
  | .file _ => .error .notAFolder
  | .folder entries =>
    if nameLimit < byteSize name then .error .tooLong
    else
      match Table.get? name entries with
      | none => .error .notFound
      | some next => .ok next

/-- What is at a path, apart from the limits on its size. -/
def entryAt (tree : FileTree) (path : Path) : Except ReadError FileTree :=
  (tree.top.walk path.parts).map Place.here

theorem map_here_go {segment : Text} (h : Path.Ordinary segment) (p : Place) :
    (p.go segment).map Place.here = p.here.enter segment := by
  have hstep : Path.step? segment = some (.entry segment) := by
    simp [Path.step?, h.ne_nil, h.ne_here, h.ne_up]
  unfold Place.go enter
  cases p.here with
  | file content => rfl
  | folder entries =>
    simp only [hstep]
    split
    · rfl
    · cases Table.get? segment entries with
      | none => rfl
      | some next => rfl

theorem walk_singleton (p : Place) (part : Text) : p.walk [part] = p.go part := by
  simp only [Place.walk]
  cases p.go part with
  | error e => rfl
  | ok next => rfl

/-- An empty part at the end of a path makes no difference to a walk that goes on. -/
theorem walk_nil_bind_go {segment : Text} (p : Place) :
    ((p.walk [[]]).bind fun next => next.go segment) = p.go segment := by
  rw [walk_singleton]
  unfold Place.go
  cases hhere : p.here with
  | file content => rfl
  | folder entries =>
    simp only [Path.step?, true_or, if_true, Except.bind, hhere]

theorem walk_parts_join {base : Path} {segment : Text} (h : Path.Ordinary segment) (p : Place) :
    p.walk (Path.parts (Path.join base segment)) =
      (p.walk (Path.parts base)).bind fun next => next.go segment := by
  rcases h.parts_join base with hparts | ⟨front, hbase, hparts⟩
  · rw [hparts, Place.walk_append]
    simp only [walk_singleton]
  · rw [hparts, hbase, Place.walk_append, Place.walk_append]
    cases p.walk front with
    | error e => rfl
    | ok next => exact (walk_singleton ..).trans (walk_nil_bind_go next).symm

theorem entryAt_join (tree : FileTree) {base : Path} {segment : Text} (h : Path.Ordinary segment) :
    tree.entryAt (Path.join base segment) = (tree.entryAt base).bind (enter segment) := by
  rw [entryAt, entryAt, walk_parts_join h]
  cases tree.top.walk (Path.parts base) with
  | error e => rfl
  | ok next => exact map_here_go h next

theorem entryAt_foldl_join {t₁ t₂ : FileTree} (segments : List Text)
    (hall : ∀ s ∈ segments, Path.Ordinary s) :
    ∀ {base : Path}, t₁.entryAt base = t₂.entryAt base →
      t₁.entryAt (segments.foldl Path.join base) = t₂.entryAt (segments.foldl Path.join base) := by
  induction segments with
  | nil =>
    intro base h
    exact h
  | cons s rest ih =>
    intro base h
    have hs := hall s (List.mem_cons_self ..)
    apply ih fun s hs => hall s (List.mem_cons_of_mem _ hs)
    rw [entryAt_join t₁ hs, entryAt_join t₂ hs, h]

/-! ## Nothing there -/

/-- From the empty folder no path leads anywhere else. -/
theorem walk_empty {parts : List Text} {place : Place}
    (h : (top (.folder [])).walk parts = .ok place) : place = top (.folder []) := by
  have hgo : ∀ part, (top (.folder [])).go part = .ok (top (.folder [])) ∨
      ∃ e, (top (.folder [])).go part = .error e := by
    intro part
    unfold Place.go top
    dsimp only
    split
    · exact .inl rfl
    · split
      · exact .inr ⟨_, rfl⟩
      · exact .inr ⟨_, rfl⟩
    · exact .inl rfl
  induction parts with
  | nil =>
    cases h
    rfl
  | cons part rest ih =>
    rw [Place.walk] at h
    rcases hgo part with hstay | ⟨e, herror⟩
    · rw [hstay] at h
      exact ih h
    · rw [herror] at h
      cases h

/-- In the empty folder there is no file to read. -/
theorem readBytes_empty {path : Path} {content : Bytes} :
    (folder []).readBytes path ≠ .ok content := by
  intro h
  unfold readBytes find at h
  cases hflaw : flaw? path with
  | some e =>
    rw [hflaw] at h
    cases h
  | none =>
    rw [hflaw] at h
    dsimp only at h
    cases hwalk : (top (folder [])).walk (Path.parts path) with
    | error e =>
      rw [hwalk] at h
      cases h
    | ok place =>
      rw [hwalk, walk_empty hwalk] at h
      cases h

theorem readText_empty {path : Path} {source : Text} : (folder []).readText path ≠ .ok source := by
  intro h
  rw [readText] at h
  cases hcontent : (folder []).readBytes path with
  | error e =>
    rw [hcontent] at h
    cases h
  | ok content => exact readBytes_empty hcontent

/-! ## Agreement -/

/-- The same file can be read at a path in both trees, or none in either. -/
def SameFile (t₁ t₂ : FileTree) (path : Path) : Prop :=
  (t₁.readBytes path).toOption = (t₂.readBytes path).toOption

/-- Two trees agree on every path that extends a base by ordinary segments. -/
def AgreeBelow (t₁ t₂ : FileTree) (base : Path) : Prop :=
  ∀ path, Path.Below base path → SameFile t₁ t₂ path

theorem readBytes_eq (tree : FileTree) (path : Path) :
    (tree.readBytes path).toOption =
      match flaw? path, tree.entryAt path with
      | none, .ok (.file content) => some content
      | _, _ => none := by
  unfold readBytes find entryAt
  cases flaw? path with
  | some e => rfl
  | none =>
    simp only
    cases tree.top.walk path.parts with
    | error e => rfl
    | ok place =>
      simp only [Except.map]
      cases place.here with
      | file content => rfl
      | folder entries => rfl

/-- Trees with the same entry at a path agree below it. -/
theorem agreeBelow_of_entry {t₁ t₂ : FileTree} {base : Path}
    (h : t₁.entryAt base = t₂.entryAt base) : AgreeBelow t₁ t₂ base := by
  rintro path ⟨segments, hall, rfl⟩
  rw [SameFile, readBytes_eq, readBytes_eq, entryAt_foldl_join segments hall h]

theorem SameFile.readText {t₁ t₂ : FileTree} {path : Path} (h : SameFile t₁ t₂ path) :
    (t₁.readText path).toOption = (t₂.readText path).toOption := by
  unfold SameFile at h
  unfold FileTree.readText
  rcases h₁ : t₁.readBytes path with e₁ | b₁ <;> rcases h₂ : t₂.readBytes path with e₂ | b₂ <;>
    rw [h₁, h₂] at h <;> simp only [Except.toOption, reduceCtorEq, Option.some.injEq] at h ⊢
  rw [h]

end FileTree

end ModuleServer
