import ModuleServer.Proofs.Files.Components

/-!
# Where paths lead

A path leads from the root of all to a location, the names that are gone into and not left again. It
can be told from the path alone (`location`), and so can what it enters on its way (`Enters`): a
path that is extended by names goes on from where it led (`enters_foldl_join`).
-/

namespace ModuleServer.Path

open Text

/-- The location that a step leads to. -/
def follow (place : List Text) : Step → List Text
  | .up => place.dropLast
  | .entry name => place ++ [name]
  | _ => place

/-- The location that parts of a path lead to. -/
def locate (place : List Text) (parts : List Text) : List Text :=
  (parts.filterMap step?).foldl follow place

/-- The location that a path leads to. -/
def location (path : Path) : List Text :=
  locate [] (parts path)

/-- A path leads to a place or into it, at its end or before. -/
def Enters (path : Path) (place : List Text) : Prop :=
  ∃ front, front <+: parts path ∧ place <+: locate [] front

/-! ## Parts -/

section Locate

variable (place : List Text)

theorem locate_append (front rest : List Text) :
    locate place (front ++ rest) = locate (locate place front) rest := by
  rw [locate, List.filterMap_append, List.foldl_append]
  rfl

theorem locate_cons (part : Text) (rest : List Text) :
    locate place (part :: rest) = locate (locate place [part]) rest :=
  locate_append place [part] rest

theorem locate_concat_nil (front : List Text) : locate place (front ++ [[]]) = locate place front :=
  locate_append place front [[]]

theorem Ordinary.locate_concat {name : Text} (h : Ordinary name) (front : List Text) :
    locate place (front ++ [name]) = locate place front ++ [name] := by
  rw [locate_append, locate, List.filterMap_cons, h.step?_eq]
  rfl

theorem foldl_follow_entries (names : List Text) :
    (names.map .entry).foldl follow place = place ++ names := by
  induction names generalizing place with
  | nil => simp
  | cons name names ih => simp [follow, ih]

end Locate

/-- Parts that never go up only lead further. -/
theorem prefix_locate {parts : List Text} (h : ['.', '.'] ∉ parts) (place : List Text) :
    place <+: locate place parts := by
  induction parts generalizing place with
  | nil => exact List.prefix_rfl
  | cons part parts ih =>
    obtain ⟨hpart, hparts⟩ := not_or.1 (mt List.mem_cons.2 h)
    rw [locate_cons]
    refine List.IsPrefix.trans ?_ (ih hparts _)
    unfold locate
    rw [List.filterMap_cons, step?]
    split
    · exact List.prefix_rfl
    · rename_i step hstep
      split at hstep
      · cases hstep
      rw [if_neg (Ne.symm hpart)] at hstep
      obtain rfl := Option.some.inj hstep
      exact List.prefix_append place [part]

/-! ## Paths -/

theorem location_eq (path : Path) : location path = (components path).foldl follow [] := by
  have hlead : (lead path).foldl follow [] = [] := by
    unfold lead
    split
    · rfl
    split
    · rfl
    · rfl
  rw [components_eq, List.foldl_append, hlead]
  rfl

/-- Where a path leads that adds names to the steps of another. -/
theorem location_of_components {base path : Path} {names : List Text}
    (h : components path = components base ++ names.map .entry) :
    location path = location base ++ names := by
  rw [location_eq, h, List.foldl_append, foldl_follow_entries, location_eq]

/-- A path that never goes up enters nothing but what it leads to or into. -/
theorem prefix_of_enters {path : Path} (hup : ['.', '.'] ∉ parts path) {place : List Text}
    (h : Enters path place) : place <+: location path := by
  obtain ⟨front, ⟨rest, hrest⟩, hplace⟩ := h
  have hup' : ['.', '.'] ∉ rest := fun hmem => hup (hrest ▸ List.mem_append_right _ hmem)
  rw [location, ← hrest, locate_append]
  exact hplace.trans (prefix_locate hup' _)

section Join

variable (base : Path) {place : List Text}

theorem Ordinary.location_join {name : Text} (h : Ordinary name) :
    location (join base name) = location base ++ [name] := by
  unfold location
  rcases h.parts_join base with hparts | ⟨front, hbase, hparts⟩
  · rw [hparts, h.locate_concat]
  · rw [hparts, hbase, h.locate_concat, locate_concat_nil]

theorem Ordinary.enters_join {name : Text} (h : Ordinary name) :
    Enters (join base name) place ↔ Enters base place ∨ place <+: location base ++ [name] := by
  rw [← h.location_join base]
  constructor
  · rintro ⟨front, hfront, hplace⟩
    rcases h.parts_join base with hparts | ⟨before, hbase, hparts⟩
    · rw [hparts, List.prefix_concat_iff] at hfront
      rcases hfront with rfl | hfront
      · right
        rwa [location, hparts]
      · exact .inl ⟨front, hfront, hplace⟩
    · rw [hparts, List.prefix_concat_iff] at hfront
      rcases hfront with rfl | hfront
      · right
        rwa [location, hparts]
      · refine .inl ⟨front, ?_, hplace⟩
        rw [hbase]
        exact hfront.trans (List.prefix_append before [[]])
  · rintro (⟨front, hfront, hplace⟩ | hplace)
    · rcases h.parts_join base with hparts | ⟨before, hbase, hparts⟩
      · refine ⟨front, ?_, hplace⟩
        rw [hparts]
        exact hfront.trans (List.prefix_append _ _)
      · rw [hbase, List.prefix_concat_iff] at hfront
        have hbefore : before <+: parts (join base name) := by
          rw [hparts]
          exact List.prefix_append before [name]
        rcases hfront with rfl | hfront
        · rw [locate_concat_nil] at hplace
          exact ⟨before, hbefore, hplace⟩
        · exact ⟨front, hfront.trans hbefore, hplace⟩
    · exact ⟨_, List.prefix_rfl, hplace⟩

/-- A path that is extended by names enters what it entered before, and what lies on the way from
where it led. -/
theorem enters_foldl_join {names : List Text} (h : ∀ name ∈ names, Ordinary name) :
    Enters (names.foldl join base) place ↔
      Enters base place ∨ place <+: location base ++ names := by
  induction names generalizing base with
  | nil =>
    rw [List.foldl_nil, List.append_nil]
    exact ⟨.inl, fun h => h.elim id fun hplace => ⟨_, List.prefix_rfl, hplace⟩⟩
  | cons name names ih =>
    obtain ⟨hname, hnames⟩ := List.forall_mem_cons.1 h
    have hmore : place <+: location base ++ [name] → place <+: location base ++ [name] ++ names :=
      fun hplace => hplace.trans (List.prefix_append _ _)
    rw [List.foldl_cons, ih _ hnames, hname.enters_join, hname.location_join, or_assoc,
      or_iff_right_of_imp hmore, List.append_assoc, List.singleton_append]

end Join

end ModuleServer.Path
