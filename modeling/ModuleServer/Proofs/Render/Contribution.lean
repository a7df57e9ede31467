import ModuleServer.Proofs.Render.Binder
import ModuleServer.Proofs.Render.Verbatim

/-!
# What a tag contributes

The directives of a resolved tag are those of the tag with their paths resolved, and what a tag
contributes to its props where some names are bound is what the resolved tag contributes by itself
(`assignments_resolve`). The same holds of the value of a key (`keyValue?_resolve`).
-/

namespace ModuleServer.Render.Lexical

open Text

/-! ## Directives of a tag -/

/-- The directive that an item is, if it is one of a name. -/
def Item.named? (name : Text) : Item → Option Directive
  | .directive d => if d.action.name = name then some d else none
  | .attribute _ => none

/-- The first directive of a name. -/
def Tag.directive? (tag : Tag) (name : Text) : Option Directive :=
  tag.items.findSome? (Item.named? name)

theorem Action.name_resolve (outer inner : List Text) (action : Action) :
    (action.resolve outer inner).name = action.name := by
  cases action <;> rfl

theorem findSome?_plain (items : List Item) (name : Text) :
    (items.map Item.plain).findSome? (fun
      | .directive d => if d.name = name then some d else none
      | .attribute _ => none) = (items.findSome? (Item.named? name)).map Directive.plain := by
  induction items with
  | nil => rfl
  | cons item items ih =>
    rcases item with a | d
    · exact ih
    · by_cases h : d.action.name = name
      · simp [Item.plain, Item.named?, Directive.plain, h]
      · simpa [Item.plain, Item.named?, Directive.plain, h] using ih

theorem findSome?_resolve (outer inner : List Text) (items : List Item) (name : Text) :
    (items.map (Item.resolve outer inner)).findSome? (Item.named? name) =
      (items.findSome? (Item.named? name)).map (Directive.resolve outer inner) := by
  induction items with
  | nil => rfl
  | cons item items ih =>
    rcases item with a | d
    · exact ih
    · by_cases h : d.action.name = name
      · simp [Item.resolve, Item.named?, Directive.resolve, Action.name_resolve, h]
      · simpa [Item.resolve, Item.named?, Directive.resolve, Action.name_resolve, h] using ih

namespace Tag

variable (tag : Tag) (bound : List Text) (name : Text)

theorem directive?_plain :
    tag.plain.directive? name = (tag.directive? name).map Directive.plain :=
  findSome?_plain ..

theorem directive?_resolve :
    (tag.resolve bound).directive? name =
      (tag.directive? name).map (Directive.resolve bound (tag.loopNames ++ bound)) :=
  findSome?_resolve ..

theorem has_plain : tag.plain.has name = (tag.directive? name).isSome := by
  simp [Template.Tag.has, directive?_plain]

theorem has_resolve : (tag.resolve bound).plain.has name = tag.plain.has name := by
  simp [has_plain, directive?_resolve]

end Tag

theorem Action.isSome_loop? (action : Action) :
    action.loop?.isSome = decide (action.name = "for".toList) := by
  cases action with
  | other name path known =>
    have hname : name ≠ "for".toList := fun h => known (by simp [h])
    exact (decide_eq_false hname).symm
  | _ => simp [loop?, Action.name]

theorem Action.isSome_slot? (action : Action) :
    action.slot?.isSome = decide (action.name = "slot".toList) := by
  cases action with
  | other name path known =>
    have hname : name ≠ "slot".toList := fun h => known (by simp [h])
    exact (decide_eq_false hname).symm
  | _ => simp [slot?, Action.name]

/-- What only the directives of one name have is found at the first directive of that name. -/
theorem findSome?_named {α : Type} {name : Text} {read : Action → Option α}
    (hread : ∀ action, (read action).isSome = decide (action.name = name)) (items : List Item) :
    items.findSome? (fun
      | .attribute _ => none
      | .directive d => read d.action) =
    (items.findSome? (Item.named? name)).bind fun d => read d.action := by
  induction items with
  | nil => rfl
  | cons item items ih =>
    rcases item with a | d
    · exact ih
    · have hd := hread d.action
      by_cases h : d.action.name = name
      · simp only [h, decide_true] at hd
        obtain ⟨found, hfound⟩ := Option.isSome_iff_exists.1 hd
        simp [Item.named?, h, hfound]
      · simp only [h, decide_false, Option.isSome_eq_false_iff, Option.isNone_iff_eq_none] at hd
        simpa [Item.named?, h, hd] using ih

/-- The loop of a tag is its first directive of that name. -/
theorem Tag.findSome?_loop (tag : Tag) :
    tag.items.findSome? Item.loop? =
      (tag.directive? "for".toList).bind fun d => d.action.loop? :=
  findSome?_named Action.isSome_loop? tag.items

/-- The slot of a tag is its first directive of that name. -/
theorem Tag.findSome?_slot (tag : Tag) :
    tag.items.findSome? Item.slot? =
      (tag.directive? "slot".toList).bind fun d => d.action.slot? :=
  findSome?_named Action.isSome_slot? tag.items

/-! ## Contributions -/

section Contributions

variable (outer inner : List Text)

theorem refuseDynamic_resolve (items : List Item) :
    refuseDynamic ((items.map (Item.resolve outer inner)).map Item.plain) =
      refuseDynamic (items.map Item.plain) := by
  induction items with
  | nil => rfl
  | cons item items ih =>
    rcases item with a | d
    · exact ih
    · simp only [List.map_cons, Item.resolve, Item.plain, refuseDynamic, ih]
      simp only [Directive.plain, Directive.resolve, Action.name_resolve]
      rfl

end Contributions

/-- A directive with a path, or without an expression, beside the same directive with its path
resolved. -/
structure Agree (bound : List Text) (d d' : Template.Directive) : Prop where
  name : d'.name = d.name
  arg : d'.arg = d.arg
  modifiers : d'.modifiers = d.modifiers
  span : d'.span = d.span
  exp : ∃ path : Option Path,
    d.exp = path.map Path.text ∧ d'.exp = path.map fun p => (p.resolve bound).text

namespace Agree

variable {bound skipped : List Text} {d d' : Template.Directive}

/-- The expression that a directive needs is missing in both, or a path that is resolved. -/
theorem required_cases (h : Agree bound d d') :
    (∃ e, Render.required d = .error e ∧ Render.required d' = .error e) ∨
      ∃ p : Path, Render.required d = .ok p.text ∧
        Render.required d' = .ok (p.resolve bound).text := by
  obtain ⟨path, hexp, hexp'⟩ := h.exp
  rw [Render.required, Render.required, hexp, hexp', h.name, h.span]
  cases path with
  | none => exact .inl ⟨_, rfl, rfl⟩
  | some p => exact .inr ⟨p, rfl, rfl⟩

theorem required (h : Agree bound d d') :
    (required d >>= inContext bound) = Render.required d' := by
  rcases h.required_cases with ⟨e, he, he'⟩ | ⟨p, hp, hp'⟩
  · rw [he, he']
    rfl
  · rw [hp, hp']
    exact inContext_path bound p

theorem react (h : Agree bound d d') : react bound d.exp = .ok (Verbatim.react d'.exp) := by
  obtain ⟨path, hexp, hexp'⟩ := h.exp
  rw [hexp, hexp']
  cases path with
  | none => rfl
  | some p =>
    -- a path is a listener that stands for itself, resolved or not
    have hshape : ∀ p : Path, ∃ c t, p.text = c :: t ∧ Expression.isMemberPath (c :: t) := by
      intro p
      obtain ⟨c, t, hp⟩ := List.exists_cons_of_ne_nil p.text_ne_nil
      exact ⟨c, t, hp, hp ▸ isMemberPath_path p⟩
    obtain ⟨c, t, htext, hmember⟩ := hshape p
    obtain ⟨c', t', htext', hmember'⟩ := hshape (p.resolve bound)
    have hcontext := inContext_path bound p
    simp only [Option.map_some, Render.react, Verbatim.react, trim_path]
    rw [htext, htext'] at *
    simp only [hmember, hmember', hcontext, Bool.true_or, if_true]
    rfl

theorem listen (h : Agree bound d d') (event : Text) :
    listen bound event d = .ok (Verbatim.listen event d') := by
  rw [Render.listen, Verbatim.listen, h.react, h.modifiers]
  rfl

theorem bind (h : Agree bound d d') (hsome : d.exp.isSome) (arg : Text) :
    bind bound arg d = .ok (Verbatim.bind arg d') := by
  obtain ⟨path, hexp, hexp'⟩ := h.exp
  cases path with
  | none => simp [hexp] at hsome
  | some p =>
    rw [Render.bind, Verbatim.bind, hexp, hexp', h.modifiers]
    simp only [Option.map_some, Option.getD_some, inContext_path]
    rfl

/-- A directive contributes where names are bound what it contributes by itself once its path is
resolved. -/
theorem assign (h : Agree bound d d') (hbind : d.name = "bind".toList → d.exp.isSome) :
    assignDirective bound skipped d = Verbatim.assignDirective skipped d' := by
  rw [assignDirective, Verbatim.assignDirective, h.name, h.arg, h.span]
  by_cases hname : d.name = "bind".toList
  · rw [if_pos hname, if_pos hname]
    cases d.arg with
    | none =>
      dsimp only
      rw [← h.required, bind_assoc]
    | some arg =>
      dsimp only
      rw [h.bind (hbind hname)]
      rfl
  rw [if_neg hname, if_neg hname]
  by_cases hname : d.name = "on".toList
  · rw [if_pos hname, if_pos hname]
    cases d.arg with
    | none => rfl
    | some event =>
      dsimp only
      rw [h.listen]
      rfl
  rw [if_neg hname, if_neg hname]
  by_cases hname : d.name = "html".toList
  · rw [if_pos hname, if_pos hname, ← h.required, bind_assoc]
  rw [if_neg hname, if_neg hname]

end Agree

theorem agree_other (outer inner : List Text) (name : Text) (path : Option Path)
    (known : name ∉ ["for".toList, "slot".toList, "bind".toList]) (arg : Option Text)
    (modifiers : List Text) (span : Span) :
    let d : Directive := ⟨.other name path known, arg, modifiers, span⟩
    Agree (if isCondition name then outer else inner) d.plain (d.resolve outer inner).plain :=
  ⟨rfl, rfl, rfl, rfl, path, rfl, by simp [Directive.plain, Directive.resolve, Action.resolve,
    Action.exp?, Function.comp_def]⟩

/-- An item contributes where names are bound what it contributes by itself once its paths are
resolved. -/
theorem assign_resolve (outer inner skipped : List Text) (item : Item) :
    assign inner skipped item.plain = Verbatim.assign skipped (item.resolve outer inner).plain := by
  rcases item with a | ⟨action, arg, modifiers, span⟩
  · rfl
  · cases action with
    | loop l => rfl
    | slot params => rfl
    | bind path => exact Agree.assign ⟨rfl, rfl, rfl, rfl, some path, rfl, rfl⟩ fun _ => rfl
    | other name path known =>
      have hagree := agree_other outer inner name path known arg modifiers span
      by_cases hcondition : isCondition name
      · -- a condition contributes nothing
        simp only [isCondition, Bool.or_eq_true, decide_eq_true_eq] at hcondition
        rcases hcondition with rfl | rfl <;> rfl
      · rw [if_neg hcondition] at hagree
        exact hagree.assign fun h => absurd (by simp_all [Directive.plain, Action.name]) known

theorem assignments_resolve (outer inner skipped : List Text) (items : List Item) :
    assignments inner skipped (items.map Item.plain) =
      Verbatim.assignments skipped ((items.map (Item.resolve outer inner)).map Item.plain) := by
  induction items with
  | nil => rfl
  | cons item items ih =>
    simp only [List.map_cons, assignments, Verbatim.assignments, ih, assign_resolve outer]

/-- The value of a key where names are bound is the value once the paths are resolved. -/
theorem keyValue?_resolve (outer inner : List Text) (key valueless : Text) (items : List Item) :
    keyValue? inner key valueless (items.map Item.plain) =
      .ok (Verbatim.keyValue? key valueless
        ((items.map (Item.resolve outer inner)).map Item.plain)) := by
  induction items with
  | nil => rfl
  | cons item items ih =>
    rcases item with a | ⟨action, arg, modifiers, span⟩
    · simp only [List.map_cons, Item.plain, Item.resolve, keyValue?, Verbatim.keyValue?, ih]
      split <;> rfl
    · have hname := Action.name_resolve outer inner action
      simp only [List.map_cons, Item.plain, Item.resolve, keyValue?, Verbatim.keyValue?,
        Directive.plain, Directive.resolve, hname]
      by_cases hkey : action.name = "bind".toList ∧ arg = some key
      · cases action with
        | bind path =>
          rw [if_pos hkey, if_pos hkey]
          simp only [Action.resolve, Action.exp?, inContext_path]
          rfl
        | other name path known => exact absurd (by simp_all [Action.name]) known
        | loop l => exact absurd hkey.1 (by simp [Action.name])
        | slot params => exact absurd hkey.1 (by simp [Action.name])
      · rw [if_neg hkey, if_neg hkey, ih]

end ModuleServer.Render.Lexical
