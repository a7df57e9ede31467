import ModuleServer.Text.Basic

/-!
# Failures of requests

Why a module cannot be served. Every failure has a stable code, for logs, and a text.
-/

namespace ModuleServer

/-- Why a module cannot be served. -/
inductive Failure where
  /-- There is no readable file. -/
  | fileNotFound (path : Text)
  /-- The path leads out of the project. -/
  | outsideRoot (path : Text)
  /-- A package has no readable manifest. -/
  | manifestNotFound (package path : Text)
  /-- A manifest does not name the package's entry. -/
  | entryFieldMissing (package field : Text)
  /-- A component file cannot be read. -/
  | parseFailure (path message : Text)
  /-- A template cannot be compiled. -/
  | compileFailure (path message : Text)
  /-- Files of this kind are not served. -/
  | unsupportedExtension (path : Text)
  /-- A component has no such part. -/
  | unsupportedVariant (path variant : Text)
deriving DecidableEq, Repr

namespace Failure

/-- The code of a failure. -/
def code : Failure → String
  | fileNotFound _ => "DEV_FILE_NOT_FOUND"
  | outsideRoot _ => "DEV_OUTSIDE_ROOT"
  | manifestNotFound _ _ => "DEV_MANIFEST_NOT_FOUND"
  | entryFieldMissing _ _ => "DEV_ENTRY_FIELD_MISSING"
  | parseFailure _ _ => "DEV_PARSE_FAILURE"
  | compileFailure _ _ => "DEV_COMPILE_FAILURE"
  | unsupportedExtension _ => "DEV_UNSUPPORTED_EXTENSION"
  | unsupportedVariant _ _ => "DEV_UNSUPPORTED_VARIANT"

/-- The text of a failure. -/
def message : Failure → Text
  | fileNotFound path => "File not found: ".toList ++ path
  | outsideRoot path => "Path escapes the project root: ".toList ++ path
  | manifestNotFound package path =>
    "Manifest for package '".toList ++ package ++ "' not found at ".toList ++ path
  | entryFieldMissing package field =>
    "Package '".toList ++ package ++ "' has no string \"".toList ++ field ++
      "\" field in its manifest".toList
  | parseFailure path message =>
    "Failed to parse ".toList ++ path ++ [':', ' '] ++ message
  | compileFailure path message =>
    "Failed to compile ".toList ++ path ++ [':', ' '] ++ message
  | unsupportedExtension path => "Unsupported file type: ".toList ++ path
  | unsupportedVariant path variant =>
    "Unsupported module variant '".toList ++ variant ++ "' for ".toList ++ path

end Failure

end ModuleServer
