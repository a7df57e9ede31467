import ModuleServer.Files.Tree
import ModuleServer.Proofs.Files.Location

/-!
# Changes at one place

Two trees that are the same apart from one place (`SameApart`) have everywhere else the same files
and folders, whatever is at the place or below it in either. Writing, making a folder and removing
change a tree at one place alone, if the folders on the way are there (`sameApart_write`,
`sameApart_makeFolder`, `sameApart_remove`). A change is not seen by reading a path that does not
enter the place (`readBytes_congr`), and a path that does enter it cannot be read once nothing is
there (`formAt_of_readBytes`).
-/

namespace ModuleServer.FileTree

open Text

/-! ## Forms -/

/-- What an entry is, apart from what is in it if it is a folder. -/
inductive Form where
  /-- A file. -/
  | file (content : Bytes)
  /-- A folder. -/
  | folder
deriving DecidableEq

/-- The form of an entry. -/
def form : FileTree → Form
  | .file content => .file content
  | .folder _ => .folder

/-- The entry of a name. -/
def child? (name : Text) : FileTree → Option FileTree
  | .file _ => none
  | .folder entries => Table.get? name entries

/-- What is at a location, given by names from the root of all. -/
def at? : List Text → FileTree → Option FileTree
  | [], tree => some tree
  | name :: rest, tree => (tree.child? name).bind (at? rest)

/-- The form of what is at a location. -/
def formAt (tree : FileTree) (place : List Text) : Option Form :=
  (at? place tree).map form

/-- Two trees are the same apart from what is at a location. -/
def SameApart (place : List Text) (t₁ t₂ : FileTree) : Prop :=
  ∀ other, ¬ place <+: other → t₁.formAt other = t₂.formAt other

theorem at?_append (front rest : List Text) (tree : FileTree) :
    at? (front ++ rest) tree = (at? front tree).bind (at? rest) := by
  induction front generalizing tree with
  | nil => rfl
  | cons name front ih =>
    rw [List.cons_append, at?, at?]
    cases tree.child? name with
    | none => rfl
    | some next => exact ih next

theorem at?_concat (front : List Text) (name : Text) (tree : FileTree) :
    at? (front ++ [name]) tree = (at? front tree).bind (child? name) := by
  rw [at?_append]
  congr 1
  funext next
  rw [at?]
  cases next.child? name <;> rfl

/-! ## Walking -/

/-- A place of a walk through a tree, with folders above it that are those of the tree. -/
inductive Place.In (tree : FileTree) : Place → Prop where
  | top : In tree tree.top
  | enter {p : Place} {name : Text} {next : FileTree} (h : In tree p)
      (hchild : p.here.child? name = some next) : In tree ⟨(name, p.here) :: p.above, next⟩

section Walk

variable {tree : FileTree} {p q : Place}

theorem Place.names_enter (name : Text) (here next : FileTree) (above : List (Text × FileTree)) :
    Place.names ⟨(name, here) :: above, next⟩ = Place.names ⟨above, here⟩ ++ [name] := by
  simp [names]

theorem Place.In.at?_names (h : p.In tree) : at? p.names tree = some p.here := by
  induction h with
  | top => rfl
  | @enter p name next _ hchild ih =>
    have hnames : p.names = Place.names ⟨p.above, p.here⟩ := rfl
    rw [names_enter, ← hnames, at?_concat, ih]
    exact hchild

theorem Place.In.formAt_names (h : p.In tree) : tree.formAt p.names = some p.here.form := by
  rw [formAt, h.at?_names, Option.map_some]

theorem Place.In.up (h : p.In tree) : p.up.In tree ∧ p.up.names = p.names.dropLast := by
  cases h with
  | top => exact ⟨.top, rfl⟩
  | @enter p name next h _ =>
    refine ⟨h, ?_⟩
    rw [names_enter, List.dropLast_concat]
    rfl

/-- One step of a walk ends in the tree, where the step leads. -/
theorem Place.In.go {part : Text} (h : p.In tree) (hgo : p.go part = .ok q) :
    q.In tree ∧ q.names = Path.locate p.names [part] := by
  unfold Place.go at hgo
  unfold Path.locate
  cases hhere : p.here with
  | file content =>
    rw [hhere] at hgo
    cases hgo
  | folder entries =>
    rw [hhere] at hgo
    dsimp only at hgo
    rw [List.filterMap_cons]
    generalize Path.step? part = step at hgo
    rcases step with _ | (_ | _ | _ | name)
    · cases hgo
      exact ⟨h, rfl⟩
    · cases hgo
      exact ⟨h, rfl⟩
    · cases hgo
      exact ⟨h, rfl⟩
    · cases hgo
      exact h.up
    · dsimp only at hgo
      split at hgo
      · cases hgo
      cases hget : Table.get? name entries with
      | none =>
        rw [hget] at hgo
        cases hgo
      | some next =>
        rw [hget, ← hhere] at hgo
        cases hgo
        have hchild : p.here.child? name = some next := by
          rw [hhere]
          exact hget
        exact ⟨.enter h hchild, names_enter ..⟩

/-- A walk ends in the tree, where its parts lead. -/
theorem Place.In.walk {parts : List Text} (h : p.In tree) (hwalk : p.walk parts = .ok q) :
    q.In tree ∧ q.names = Path.locate p.names parts := by
  induction parts generalizing p with
  | nil =>
    cases hwalk
    exact ⟨h, rfl⟩
  | cons part parts ih =>
    rw [Place.walk] at hwalk
    cases hgo : p.go part with
    | error e =>
      rw [hgo] at hwalk
      cases hwalk
    | ok next =>
      rw [hgo] at hwalk
      obtain ⟨hnext, hnames⟩ := h.go hgo
      obtain ⟨hq, hlocate⟩ := ih hnext hwalk
      refine ⟨hq, ?_⟩
      rw [hlocate, hnames, ← Path.locate_cons]

end Walk

/-! ## Two walks -/

section Together

variable {t₁ t₂ : FileTree} {p₁ p₂ : Place}

/-- Two results that are the same once mapped are one error, or values that are mapped to the
same. -/
theorem cases_of_map_eq {ε α β : Type} {f : α → β} {r₁ r₂ : Except ε α}
    (h : r₁.map f = r₂.map f) :
    (∃ e, r₁ = .error e ∧ r₂ = .error e) ∨ ∃ a₁ a₂, r₁ = .ok a₁ ∧ r₂ = .ok a₂ ∧ f a₁ = f a₂ := by
  cases r₁ with
  | error e₁ =>
    cases r₂ with
    | error e₂ =>
      cases h
      exact .inl ⟨e₁, rfl, rfl⟩
    | ok a₂ => cases h
  | ok a₁ =>
    cases r₂ with
    | error e₂ => cases h
    | ok a₂ => exact .inr ⟨a₁, a₂, rfl, rfl, Except.ok.inj h⟩

/-- One step leads as far in two trees that have the same forms where it starts and where it
leads. -/
theorem go_together (part : Text) (h₁ : p₁.In t₁) (h₂ : p₂.In t₂) (hnames : p₁.names = p₂.names)
    (hhere : t₁.formAt p₁.names = t₂.formAt p₁.names)
    (hnext : t₁.formAt (Path.locate p₁.names [part]) = t₂.formAt (Path.locate p₁.names [part])) :
    (p₁.go part).map Place.names = (p₂.go part).map Place.names := by
  rw [h₁.formAt_names, hnames, h₂.formAt_names, Option.some.injEq] at hhere
  unfold Place.go
  cases hp₁ : p₁.here with
  | file content =>
    cases hp₂ : p₂.here with
    | file content' => rfl
    | folder entries' =>
      rw [hp₁, hp₂] at hhere
      cases hhere
  | folder entries =>
  cases hp₂ : p₂.here with
  | file content' =>
    rw [hp₁, hp₂] at hhere
    cases hhere
  | folder entries' =>
  dsimp only
  unfold Path.locate at hnext
  rw [List.filterMap_cons] at hnext
  generalize Path.step? part = step at hnext
  rcases step with _ | (_ | _ | _ | name)
  · exact congrArg Except.ok hnames
  · exact congrArg Except.ok hnames
  · exact congrArg Except.ok hnames
  · simp only [Except.map, h₁.up.2, h₂.up.2, hnames]
  · dsimp only
    split
    · rfl
    -- an entry of the name is there in both trees or in neither
    have hchild : (Table.get? name entries).map form = (Table.get? name entries').map form := by
      have hnext : t₁.formAt (p₁.names ++ [name]) = t₂.formAt (p₁.names ++ [name]) := hnext
      rw [formAt, formAt, at?_concat, at?_concat, h₁.at?_names, hnames, h₂.at?_names, hp₁, hp₂]
        at hnext
      exact hnext
    cases hget : Table.get? name entries with
    | none =>
      rw [hget] at hchild
      rw [Option.map_eq_none_iff.1 hchild.symm]
    | some next =>
      rw [hget] at hchild
      obtain ⟨next', hget', -⟩ := Option.map_eq_some_iff.1 hchild.symm
      rw [hget']
      simp only [Except.map, Place.names_enter]
      exact congrArg (fun names => Except.ok (names ++ [name])) hnames

/-- A walk leads as far in two trees that have the same forms wherever it leads through. -/
theorem walk_together {parts : List Text} (h₁ : p₁.In t₁) (h₂ : p₂.In t₂)
    (hnames : p₁.names = p₂.names) (hsame : ∀ front, front <+: parts →
      t₁.formAt (Path.locate p₁.names front) = t₂.formAt (Path.locate p₁.names front)) :
    (p₁.walk parts).map Place.names = (p₂.walk parts).map Place.names := by
  induction parts generalizing p₁ p₂ with
  | nil => exact congrArg Except.ok hnames
  | cons part parts ih =>
    have hstep := go_together part h₁ h₂ hnames (hsame [] List.nil_prefix)
      (hsame [part] (List.prefix_append [part] parts))
    rw [Place.walk, Place.walk]
    rcases cases_of_map_eq hstep with ⟨e, hgo₁, hgo₂⟩ | ⟨q₁, q₂, hgo₁, hgo₂, hq⟩
    · rw [hgo₁, hgo₂]
    · rw [hgo₁, hgo₂]
      obtain ⟨hq₁, hlocate⟩ := h₁.go hgo₁
      refine ih hq₁ (h₂.go hgo₂).1 hq fun front hfront => ?_
      have hlong := hsame (part :: front) ((List.prefix_cons_inj part).2 hfront)
      rwa [Path.locate_cons, ← hlocate] at hlong

end Together

/-! ## Reading -/

section Reading

variable {t₁ t₂ tree : FileTree} {path : Path} {place : List Text}

/-- The bytes of a file. -/
def Form.bytes : Form → Except ReadError Bytes
  | .file content => .ok content
  | .folder => .error .notFound

theorem readBytes_eq_bind (tree : FileTree) (path : Path) :
    tree.readBytes path = (tree.find path).bind fun p => p.here.form.bytes := by
  rw [readBytes]
  cases tree.find path with
  | error e => rfl
  | ok p =>
    change _ = p.here.form.bytes
    dsimp only
    cases p.here <;> rfl

/-- A change is not seen by reading a path that does not enter where it was made. -/
theorem readBytes_congr (h : SameApart place t₁ t₂) (hout : ¬ path.Enters place) :
    t₁.readBytes path = t₂.readBytes path := by
  have hsame : ∀ front, front <+: path.parts →
      t₁.formAt (Path.locate [] front) = t₂.formAt (Path.locate [] front) :=
    fun front hfront => h _ fun hplace => hout ⟨front, hfront, hplace⟩
  have hwalk := walk_together (.top : t₁.top.In t₁) (.top : t₂.top.In t₂) rfl hsame
  rw [readBytes_eq_bind, readBytes_eq_bind, find, find]
  cases flaw? path with
  | some e => rfl
  | none =>
    dsimp only
    rcases cases_of_map_eq hwalk with ⟨e, h₁, h₂⟩ | ⟨q₁, q₂, h₁, h₂, hnames⟩
    · rw [h₁, h₂]
    · -- both walks end at what the path leads to, which has the same form
      obtain ⟨hq₁, hlocate⟩ := Place.In.walk .top h₁
      obtain ⟨hq₂, -⟩ := Place.In.walk .top h₂
      have hform := hsame path.parts List.prefix_rfl
      rw [show Path.locate [] path.parts = q₁.names from hlocate.symm, hq₁.formAt_names, hnames,
        hq₂.formAt_names, Option.some.injEq] at hform
      rw [h₁, h₂]
      exact congrArg Form.bytes hform

theorem formAt_of_walk {parts front : List Text} {p : Place} (h : tree.top.walk parts = .ok p)
    (hfront : front <+: parts) : (tree.formAt (Path.locate [] front)).isSome := by
  obtain ⟨rest, rfl⟩ := hfront
  rw [Place.walk_append] at h
  cases hwalk : tree.top.walk front with
  | error e =>
    rw [hwalk] at h
    cases h
  | ok q =>
    obtain ⟨hq, hnames⟩ := Place.In.walk .top hwalk
    have hlocate : Path.locate [] front = q.names := hnames.symm
    rw [hlocate, hq.formAt_names]
    rfl

theorem at?_isSome_of_prefix {other : List Text} (h : place <+: other)
    (hother : (tree.formAt other).isSome) : (tree.formAt place).isSome := by
  obtain ⟨rest, rfl⟩ := h
  rw [formAt, at?_append] at hother
  rw [formAt]
  cases hat : at? place tree with
  | none =>
    rw [hat] at hother
    cases hother
  | some next => rfl

/-- Something is at every place that a path enters at which a file can be read. -/
theorem formAt_of_readBytes {content : Bytes} (h : tree.readBytes path = .ok content)
    (hplace : path.Enters place) : (tree.formAt place).isSome := by
  obtain ⟨front, hfront, hprefix⟩ := hplace
  unfold readBytes find at h
  split at h
  · cases h
  rename_i p hwalk
  split at hwalk
  · cases hwalk
  · exact at?_isSome_of_prefix hprefix (formAt_of_walk hwalk hfront)

end Reading

/-! ## Changing a folder -/

section Changing

variable {t₁ t₂ t₃ : FileTree} {place : List Text} {name : Text}
variable {g : Table FileTree → Table FileTree}

theorem SameApart.refl (place : List Text) (tree : FileTree) : SameApart place tree tree :=
  fun _ _ => rfl

theorem SameApart.symm (h : SameApart place t₁ t₂) : SameApart place t₂ t₁ :=
  fun other hother => (h other hother).symm

theorem SameApart.trans (h : SameApart place t₁ t₂) (h' : SameApart place t₂ t₃) :
    SameApart place t₁ t₃ :=
  fun other hother => (h other hother).trans (h' other hother)

/-- A change of an entry's form at a location below it is one at that location of the tree. -/
theorem sameApart_update {f : FileTree → FileTree} {rest : List Text}
    (hf : ∀ sub, SameApart rest (f sub) sub) (place : List Text) (tree : FileTree) :
    SameApart (place ++ rest) (update f place tree) tree := by
  induction place generalizing tree with
  | nil => exact hf tree
  | cons a place ih =>
    intro other hother
    cases tree with
    | file content => rfl
    | folder entries =>
      rw [update]
      cases hget : Table.get? a entries with
      | none => rfl
      | some child =>
        cases other with
        | nil => rfl
        | cons n other =>
          simp only [formAt, at?, child?, Table.get?_set]
          split
          · rename_i hn
            subst hn
            have hrest : ¬ place ++ rest <+: other := fun hprefix =>
              hother ((List.prefix_cons_inj n).2 hprefix)
            rw [hget]
            exact ih child other hrest
          · rfl

theorem sameApart_mapEntries
    (hg : ∀ entries n, n ≠ name → Table.get? n (g entries) = Table.get? n entries)
    (sub : FileTree) : SameApart [name] (mapEntries g sub) sub := by
  intro other hother
  cases sub with
  | file content => rfl
  | folder entries =>
    cases other with
    | nil => rfl
    | cons n other =>
      have hn : n ≠ name := by
        rintro rfl
        exact hother (List.prefix_append [n] other)
      simp only [formAt, at?, mapEntries, child?, hg entries n hn]

theorem sameApart_changeFolder
    (hg : ∀ entries n, n ≠ name → Table.get? n (g entries) = Table.get? n entries)
    (parts : List Text) (tree : FileTree) :
    SameApart (Path.locate [] parts ++ [name]) (changeFolder g parts tree) tree := by
  unfold changeFolder
  cases hwalk : tree.top.walk parts with
  | error e => exact .refl _ tree
  | ok place =>
    obtain ⟨-, hnames⟩ := Place.In.walk .top hwalk
    have hlocate : Path.locate [] parts = place.names := hnames.symm
    rw [hlocate]
    exact sameApart_update (sameApart_mapEntries hg) place.names tree

/-- Nothing is where an entry has been taken from its folder. -/
theorem formAt_update_erase (place : List Text) (name : Text) (tree : FileTree) :
    (update (mapEntries (Table.erase name)) place tree).formAt (place ++ [name]) = none := by
  induction place generalizing tree with
  | nil =>
    cases tree with
    | file content => rfl
    | folder entries => simp [formAt, update, mapEntries, at?, child?, Table.get?_erase]
  | cons a place ih =>
    cases tree with
    | file content => rfl
    | folder entries =>
      rw [update]
      cases hget : Table.get? a entries with
      | none => simp [formAt, at?, child?, hget]
      | some child =>
        simp only [formAt, List.cons_append, at?, child?, Table.get?_set, if_true]
        exact ih child

/-- A tree without anything at a location, and the same apart from it. -/
theorem exists_pruned (hplace : place ≠ []) (tree : FileTree) :
    ∃ pruned, SameApart place tree pruned ∧ pruned.formAt place = none := by
  obtain ⟨front, last, rfl⟩ := (List.eq_nil_or_concat' place).resolve_left hplace
  refine ⟨update (mapEntries (Table.erase last)) front tree, ?_, formAt_update_erase ..⟩
  refine (sameApart_update (sameApart_mapEntries fun entries n hn => ?_) front tree).symm
  rw [Table.get?_erase, if_neg hn]

end Changing

/-! ## Changing at a path -/

section Paths

variable (tree : FileTree) (path : Path)

theorem locate_trimmedParts : Path.locate [] path.trimmedParts = path.location := by
  have hparts : path.trimmedParts ++ (path.parts.reverse.takeWhile List.isEmpty).reverse =
      path.parts := by
    rw [Path.trimmedParts, ← List.reverse_append, List.takeWhile_append_dropWhile,
      List.reverse_reverse]
  have hidle : (path.parts.reverse.takeWhile List.isEmpty).reverse.filterMap Path.step? = [] := by
    rw [List.filterMap_eq_nil_iff]
    intro part hpart
    have hempty := List.all_eq_true.1 List.all_takeWhile part (List.mem_reverse.1 hpart)
    rw [List.isEmpty_iff.1 hempty]
    rfl
  rw [Path.location, ← hparts, Path.locate_append, Path.locate.eq_def _ (List.reverse _), hidle]
  rfl

theorem locate_of_ending? {parts before : List Text} {name : Text}
    (h : Path.ending? parts = some (before, name)) :
    Path.locate [] parts = Path.locate [] before ++ [name] := by
  unfold Path.ending? at h
  split at h
  · cases h
  rename_i last front hreverse
  split at h
  · rename_i hstep
    cases h
    have hparts : parts = front.reverse ++ [last] := by
      rw [← List.reverse_reverse parts, hreverse, List.reverse_cons]
    rw [hparts, Path.locate_append, Path.locate.eq_def _ [last], List.filterMap_cons, hstep]
    rfl
  · cases h

/-- Removing changes a tree where the path leads. -/
theorem sameApart_remove : SameApart path.location (tree.remove path) tree := by
  unfold remove find
  split
  · exact .refl _ tree
  rename_i place hwalk
  split at hwalk
  · cases hwalk
  obtain ⟨-, hnames⟩ := Place.In.walk .top hwalk
  have hemptied : SameApart path.location (update (mapEntries fun _ => []) place.names tree)
      tree := by
    have hplace : path.location = place.names ++ [] := by
      rw [List.append_nil]
      exact hnames.symm
    rw [hplace]
    exact sameApart_update (fun _ _ hother => absurd List.nil_prefix hother) _ tree
  dsimp only
  split
  · rename_i before name hending
    refine SameApart.trans ?_ hemptied
    rw [← locate_trimmedParts, locate_of_ending? hending]
    refine sameApart_changeFolder (fun entries n hn => ?_) before _
    rw [Table.get?_erase, if_neg hn]
  · exact hemptied

/-- Writing changes a tree where the path leads, if no folder is missing on the way. -/
theorem sameApart_write (content : Bytes) (hway : tree.makeWay path.above = tree) :
    SameApart path.location (tree.write path content) tree := by
  unfold write
  rw [hway]
  dsimp only
  split
  · rename_i before name _ hending
    rw [Path.location, locate_of_ending? hending]
    refine sameApart_changeFolder (fun entries n hn => ?_) before tree
    unfold putFile
    split
    · rfl
    split
    · rfl
    · rw [Table.get?_set, if_neg hn]
  · exact .refl _ tree

/-- Making a folder changes a tree where the path leads, if no folder is missing on the way. -/
theorem sameApart_makeFolder (hway : tree.makeWay path.above = tree) :
    SameApart path.location (tree.makeFolder path) tree := by
  unfold makeFolder addFolder
  rw [hway]
  split
  · exact .refl _ tree
  split
  · rename_i before name hending
    rw [← locate_trimmedParts, locate_of_ending? hending]
    refine sameApart_changeFolder (fun entries n hn => ?_) before tree
    unfold putFolder
    split
    · rfl
    split
    · rfl
    · rw [Table.get?_set, if_neg hn]
  · exact .refl _ tree

end Paths

end ModuleServer.FileTree
