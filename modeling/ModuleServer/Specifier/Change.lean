import ModuleServer.Files.Path

/-!
# Changes of dependencies

Which changes of files may alter what specifiers stand for, and so make it necessary to resolve them
anew.
-/

namespace ModuleServer.Specifier

/-- Files that say what is installed. -/
def resolutionFiles : List Text :=
  ["package.json", "package-lock.json", "yarn.lock", "pnpm-lock.yaml",
   "bun.lockb"].map String.toList

/-- Whether a change at a path may matter: it is the directory of dependencies, or is directly
inside it, or has the name of a file that says what is installed. -/
def affectsResolution (path deps : Path) : Bool :=
  path.components = deps.components || path.parent? = some deps.components ||
    path.fileName?.any resolutionFiles.contains

end ModuleServer.Specifier
