import ModuleServer.Text.Basic

/-!
# Specifiers

What an import names. A specifier is bare if it names a package instead of a place; it has the name
of the package, which is two segments long under a scope, and maybe a path inside the package.

* `eq_of_split`: the parts make up the specifier, apart from a slash at its end.
-/

namespace ModuleServer.Specifier

open Text

/-- Whether a specifier names a package: it is not empty, starts with neither a dot nor a slash, and
is no address. -/
def isBare (spec : Text) : Bool :=
  !(spec.isEmpty || spec.head? = some '.' || spec.head? = some '/' || has "://".toList spec ||
    startsWith "data:".toList spec)

/-- The text before the first slash and the text behind it. -/
def cutSlash? (t : Text) : Option (Text × Text) :=
  cut? ['/'] t

/-- A path inside a package, unless empty. -/
def subpath? (t : Text) : Option Text :=
  if t.isEmpty then none else some t

/-- The name of the package and the path inside it. -/
def split (spec : Text) : Text × Option Text :=
  match cutSlash? spec with
  | none => (spec, none)
  | some (first, rest) =>
    if spec.head? = some '@' then
      match cutSlash? rest with
      | none => (spec, none)
      | some (second, rest) => (first ++ ['/'] ++ second, subpath? rest)
    else (first, subpath? rest)

theorem eq_of_cutSlash? {t a b : Text} (h : cutSlash? t = some (a, b)) : t = a ++ '/' :: b := by
  rw [eq_of_cut? h, List.append_assoc]
  rfl

theorem subpath?_cases (t : Text) :
    subpath? t = some t ∨ t = [] ∧ subpath? t = none := by
  unfold subpath?
  cases t with
  | nil => exact .inr ⟨rfl, rfl⟩
  | cons c t => exact .inl rfl

/-- A specifier is the name of a package as a whole, or is parted at a slash. -/
theorem split_cases (spec : Text) : split spec = (spec, none) ∨
    ∃ package rest, spec = package ++ '/' :: rest ∧ split spec = (package, subpath? rest) := by
  unfold split
  split
  · exact .inl rfl
  rename_i first rest hfirst
  split
  · split
    · exact .inl rfl
    rename_i second rest' hsecond
    refine .inr ⟨first ++ ['/'] ++ second, rest', ?_, rfl⟩
    rw [eq_of_cutSlash? hfirst, eq_of_cutSlash? hsecond]
    simp only [List.append_assoc, List.cons_append, List.nil_append]
  · exact .inr ⟨first, rest, eq_of_cutSlash? hfirst, rfl⟩

/-- The parts make up the specifier, apart from a slash at its end. -/
theorem eq_of_split {spec package : Text} {subpath : Option Text}
    (h : split spec = (package, subpath)) :
    (∃ path, subpath = some path ∧ spec = package ++ '/' :: path) ∨
      subpath = none ∧ (spec = package ∨ spec = package ++ ['/']) := by
  rcases split_cases spec with heq | ⟨name, rest, hspec, heq⟩
  · rw [heq] at h
    obtain ⟨rfl, rfl⟩ := Prod.mk.inj h
    exact .inr ⟨rfl, .inl rfl⟩
  · rw [heq] at h
    obtain ⟨rfl, rfl⟩ := Prod.mk.inj h
    rcases subpath?_cases rest with hsome | ⟨rfl, hnone⟩
    · exact .inl ⟨rest, hsome, hspec⟩
    · exact .inr ⟨hnone, .inr hspec⟩

end ModuleServer.Specifier
