import ModuleServer.Text.Basic

/-!
# Paths

File paths as text with slashes, and the ways to go on from one.

* `Path.join` appends a path, which replaces what is there if it starts at the root of all.
* `Path.underRoot?` follows a path that must not lead out of a directory: empty segments and single
  dots stay, two dots go up, and going up from the directory itself is refused.
* `Path.components` is what two spellings of one path have in common.
* `Path.above` is the path to the folder that holds a path's last step, `Path.ending?` takes a name
  off its end.
-/

namespace ModuleServer

open Text

/-- A file path, as written. -/
abbrev Path := Text

namespace Path

/-! ## Joining -/

/-- The path that follows `path` from `base`. -/
def join (base path : Path) : Path :=
  if path.head? = some '/' then path
  else if base.isEmpty || base.getLast? = some '/' then base ++ path
  else base ++ '/' :: path

/-- Characters that part the segments of a path in an address. -/
def isSeparator (c : Char) : Bool :=
  c = '/' || c = '\\'

/-- The segments of a path that stays below its start, last first, `stack` being those followed
before. -/
def climb? (stack : List Text) : List Text → Option (List Text)
  | [] => some stack
  | segment :: rest =>
    if segment = [] ∨ segment = ['.'] then climb? stack rest
    else if segment = ['.', '.'] then
      match stack with
      | [] => none
      | _ :: stack => climb? stack rest
    else climb? (segment :: stack) rest

/-- The segments that a path leads through below its start, unless it leads out. -/
def segments? (path : Path) : Option (List Text) :=
  (climb? [] (pieces isSeparator path)).map List.reverse

/-- The path that is reached from a directory, unless it leads out of the directory. -/
def underRoot? (root path : Path) : Option Path :=
  (segments? path).map fun segments => segments.foldl join root

/-! ## Components -/

/-- What stands between the slashes of a path. -/
def parts (path : Path) : List Text :=
  pieces (· = '/') path

/-- A step of a path. -/
inductive Step where
  /-- To the root of all. -/
  | root
  /-- To where one is. -/
  | here
  /-- One up. -/
  | up
  /-- To an entry. -/
  | entry (name : Text)
deriving DecidableEq, Repr

/-- The step of a segment, if it is one: empty segments and single dots are none. -/
def step? (segment : Text) : Option Step :=
  if segment = [] ∨ segment = ['.'] then none
  else if segment = ['.', '.'] then some .up
  else some (.entry segment)

/-- The steps of a path. A single dot counts as a step only at the start. -/
def components (path : Path) : List Step :=
  let steps := (parts path).filterMap step?
  if path.head? = some '/' then .root :: steps
  else if (parts path).head? = some ['.'] then .here :: steps
  else steps

/-- The steps to the directory that holds a path; none for the root of all and for no path. -/
def parent? (path : Path) : Option (List Step) :=
  match (components path).getLast? with
  | none => none
  | some .root => none
  | some _ => some (components path).dropLast

/-- The name of the entry that a path ends with. -/
def fileName? (path : Path) : Option Text :=
  match (components path).getLast? with
  | some (.entry name) => some name
  | _ => none

/-! ## Ends -/

/-- Whether a part leads nowhere. -/
def isIdle (part : Text) : Bool :=
  part = [] || part = ['.']

/-- The path to the folder that the last step of a path starts from. -/
def above (path : Path) : Path :=
  joined ['/'] ((((parts path).reverse.dropWhile isIdle).drop 1).dropWhile isIdle).reverse

/-- The parts of a path without the empty ones at its end. -/
def trimmedParts (path : Path) : List Text :=
  ((parts path).reverse.dropWhile List.isEmpty).reverse

/-- The parts before the name that comes last, and the name, if the last part is one. -/
def ending? (parts : List Text) : Option (List Text × Text) :=
  match parts.reverse with
  | [] => none
  | last :: before =>
    match step? last with
    | some (.entry name) => some (before.reverse, name)
    | _ => none

end Path

end ModuleServer
