import ModuleServer.Config.Flags

/-!
# Command line

The words behind the program's name say what to do: tell the version, or serve a project under the
flags that follow.

* `Command.ofArgs?` reads the words.
-/

namespace ModuleServer

/-- What is asked for on the command line. -/
inductive Command where
  /-- The version. -/
  | version
  /-- To serve the project at a directory, or else the one the program runs in. -/
  | dev (root : Option String) (flags : Flags)
deriving DecidableEq, Repr

namespace Command

/-- The port that a word is. -/
def port? (word : String) : Option UInt16 :=
  let digits := word.toList
  if digits.isEmpty || !digits.all Char.isDigit then none
  else
    let port := digits.foldl (fun n c => n * 10 + (c.toNat - 48)) 0
    if port < UInt16.size then some (UInt16.ofNat port) else none

/-- One flag with its value, put into flags. -/
def setFlag? (flags : Flags) (name value : String) : Option Flags :=
  match name with
  | "--port" | "-p" => (port? value).map fun port => { flags with port := some port }
  | "--host" => some { flags with host := some value.toList }
  | "--entry" => some { flags with entry := some value.toList }
  | "--entry-field" => some { flags with entryField := some value.toList }
  | "--config" | "-c" => some { flags with configFile := some value.toList }
  | _ => none

/-- The directory and the flags that words say. -/
def devArgs? (root : Option String) (flags : Flags) : List String → Option Command
  | [] => some (.dev root flags)
  | "--no-resolve-cache" :: rest => devArgs? root { flags with noResolveCache := true } rest
  | "--cwd" :: value :: rest => devArgs? (some value) flags rest
  | name :: value :: rest =>
    match setFlag? flags name value with
    | some flags => devArgs? root flags rest
    | none => none
  | [_] => none

/-- What words ask for, if they are understood. -/
def ofArgs? : List String → Option Command
  | [] => some .version
  | ["version"] => some .version
  | "dev" :: rest => devArgs? none {} rest
  | "--cwd" :: root :: "dev" :: rest => devArgs? (some root) {} rest
  | _ => none

end Command

end ModuleServer
