import ModuleServer.Text.Basic

/-!
# Version

What the program says about itself.
-/

namespace ModuleServer

/-- Name of the program. -/
def programName : String := "vitelet"

/-- Version of the program. -/
def version : String := "0.1.0"

/-- The line that says name and version. -/
def versionLine : Text :=
  programName.toList ++ ' ' :: version.toList

end ModuleServer
