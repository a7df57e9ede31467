import ModuleServer.Import.Statement

/-!
# Resolving imports

The bare specifiers of a code are replaced by what a resolution answers, first in statements with a
clause and then, in the code that this gives, in statements without one. The resolution may keep a
state, which goes from each question to the next; the first one that fails ends it all, and
what it has left in the state stays.

* `resolveAll` does both passes, `replace` one.
-/

namespace ModuleServer.Import

variable {σ ε : Type}

/-- A resolution: from a specifier and a state to an answer and the next state. -/
abbrev Resolution (σ ε : Type) := Text → σ → Except ε Text × σ

/-- The text of segments with their bare specifiers resolved in order. -/
def resolveSegments (resolve : Resolution σ ε) : List Segment → σ → Except ε Text × σ
  | [], s => (.ok [], s)
  | .verbatim t :: rest, s =>
    let (code, s) := resolveSegments resolve rest s
    (code.map (t ++ ·), s)
  | .specifier spec :: rest, s =>
    if Specifier.isBare spec then
      match resolve spec s with
      | (.error e, s) => (.error e, s)
      | (.ok url, s) =>
        let (code, s) := resolveSegments resolve rest s
        (code.map (url ++ ·), s)
    else
      let (code, s) := resolveSegments resolve rest s
      (code.map (spec ++ ·), s)

/-- The code with the bare specifiers of statements of a form resolved. -/
def replace (form : Form) (resolve : Resolution σ ε) (code : Text) (s : σ) : Except ε Text × σ :=
  resolveSegments resolve (segments form code) s

/-- The code with its bare specifiers resolved. -/
def resolveAll (resolve : Resolution σ ε) (code : Text) (s : σ) : Except ε Text × σ :=
  match replace .clause resolve code s with
  | (.error e, s) => (.error e, s)
  | (.ok code, s) => replace .sideEffect resolve code s

end ModuleServer.Import
