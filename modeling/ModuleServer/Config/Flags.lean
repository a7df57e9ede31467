import ModuleServer.Config.File

/-!
# Flags

What is said on the command line goes over what the config file says, and that over the defaults.

* `Flags.config` is the configuration that all three give.
-/

namespace ModuleServer

/-- Settings on the command line. -/
structure Flags where
  /-- Port to listen at. -/
  port : Option UInt16 := none
  /-- Host to listen at. -/
  host : Option Text := none
  /-- Entry document, from the root. -/
  entry : Option Text := none
  /-- Manifest field that names the entry of a package. -/
  entryField : Option Text := none
  /-- Whether specifiers are to be resolved anew each time. -/
  noResolveCache : Bool := false
  /-- Config file to use. -/
  configFile : Option Path := none
deriving DecidableEq, Repr

/-- The configuration with flags put over it. -/
def Config.withFlags (c : Config) (flags : Flags) : Config :=
  { c with
    port := flags.port.getD c.port
    host := flags.host.getD c.host
    entry := flags.entry.getD c.entry
    entryField := flags.entryField.getD c.entryField
    resolveCache := c.resolveCache && !flags.noResolveCache }

namespace Flags

/-- The configuration of the project at `root`. -/
def config (flags : Flags) (tree : FileTree) (root : Path) : Except ConfigError Config :=
  (ConfigFile.load tree root flags.configFile).map fun
    | none => Config.withFlags { root } flags
    | some (_, file) => (Config.withFile { root } file).withFlags flags

end Flags

end ModuleServer
