import ModuleServer.Component.Scan
import ModuleServer.Failure
import ModuleServer.Outcome
import ModuleServer.Render.Module
import ModuleServer.Text.Utf8

/-!
# The two modules of a component

A component file is served as two modules on one path. The main module is its script, with the
exported object bound to a name, and the render function attached to that. The template module is
the compiled render function. The main module imports the template module with a token that is new
each time, so that no render function is used after the file has changed.

* `mainModule` and `templateModule` write the two.
* `bindExport` binds the exported object of a script.
-/

namespace ModuleServer.Component

open Text

/-- A compiler: from markup to the code of a render module. -/
abbrev Compiler := Text → Outcome Template.Error Text

/-- The compiler of this library. -/
def compiler : Compiler := fun markup =>
  (Render.compile .module markup).map Render.RenderCode.code

/-! ## Reading the file -/

/-- A message with the line and column of an offset in the file. -/
def located? (source : Text) (offset : Nat) (message : Text) : Option Text :=
  (lineColumn? source offset).map fun (line, column) =>
    message ++ [' ', '('] ++ decimal line ++ [':'] ++ decimal column ++ [')']

/-- The blocks of the file at a path. -/
def read (path source : Text) : Outcome Failure Component :=
  match parse source with
  | .ok c =>
    if c.isEmpty then
      Outcome.fail (.parseFailure path "component has no <script> or <template> block".toList)
    else .ok c
  | .error e => do
    let message ← Outcome.ofCut (located? source e.span.start e.fault.message)
    Outcome.fail (.parseFailure path message)

/-! ## The exported object -/

/-- Name that the exported object is bound to. -/
def objectName : Text := "_sfc_main".toList

/-- Name of the imported render function. -/
def renderName : Text := "_sfc_render".toList

/-- What follows the two words of a default export, if the text starts with them. -/
def afterExport? (t : Text) : Option Text :=
  match after? "export".toList t with
  | none => none
  | some rest =>
    if headIs isBlank rest then
      match after? "default".toList (rest.dropWhile isBlank) with
      | none => none
      | some behind => if headIs isWordChar behind then none else some behind
    else none

/-- The text before the first default export that starts a statement, and the text behind its two
words. `atStart` says whether one may start here: at the start of a line or behind a semicolon,
with spaces and tabs between. -/
def cutExport? (atStart : Bool) (t : Text) : Option (Text × Text) :=
  match t with
  | [] => none
  | c :: r =>
    match if atStart then afterExport? (c :: r) else none with
    | some behind => some ([], behind)
    | none =>
      (cutExport? (c = '\n' || c = ';' || (atStart && (c = ' ' || c = '\t'))) r).map
        fun (before, behind) => (c :: before, behind)

/-- The text, ended by a line feed unless it is empty. -/
def endLine (t : Text) : Text :=
  if t.isEmpty || endsWith ['\n'] t then t else t ++ ['\n']

/-- The binding of an empty object. -/
def emptyObject : Text :=
  "const ".toList ++ objectName ++ " = \x7b\x7d".toList

/-- A script with the object that it exports bound to a name, or with an empty object if it exports
none. -/
def bindExport (script : Text) : Text :=
  match cutExport? true script with
  | some (before, behind) => before ++ "const ".toList ++ objectName ++ " =".toList ++ behind
  | none => endLine script ++ emptyObject

/-! ## The main module -/

/-- Characters that are written as bytes in a path, beside those above ASCII. -/
def isEncoded (c : Char) : Bool :=
  c.toNat < 0x20 || c.toNat = 0x7F || " \"#%<>?`\x7b\x7d".toList.contains c

/-- A hexadecimal digit. -/
def hexDigit (n : Nat) : Char :=
  Char.ofNat (if n < 10 then '0'.toNat + n else 'A'.toNat + (n - 10))

/-- A byte, as it is written in a path. -/
def encodeByte (b : UInt8) : Text :=
  ['%', hexDigit (b.toNat / 16), hexDigit (b.toNat % 16)]

/-- A path, as it is written in an import. -/
def encodePath (path : Text) : Text :=
  path.flatMap fun c =>
    if c.toNat < 0x80 && !isEncoded c then [c] else (Utf8.encodeChar c).flatMap encodeByte

/-- The address of the template module of the component at a path. -/
def templateUrl (path : Text) (token : Nat) : Text :=
  encodePath path ++ "?type=template&d=".toList ++ decimal token

/-- The line that imports the render function. -/
def importLine (path : Text) (token : Nat) : Text :=
  "import \x7b render as ".toList ++ renderName ++ " \x7d from \"".toList ++
    templateUrl path token ++ ['"', '\n']

/-- The lines that attach the render function and export the object. -/
def exportLines : Text :=
  objectName ++ ".render = ".toList ++ renderName ++ ['\n'] ++
    "export default ".toList ++ objectName ++ ['\n']

/-- The main module of a component at a path. -/
def mainModule (path : Text) (token : Nat) (c : Component) : Text :=
  let object := match c.script with
    | some script => bindExport script.content
    | none => emptyObject
  endLine (importLine path token ++ object) ++ exportLines

/-! ## The template module -/

/-- The template of a component, unless it is blank. -/
def visibleTemplate? (c : Component) : Option Block :=
  c.template.filter fun b => !isWhiteOnly b.content

/-- The template module of a component, whose file is `source`. -/
def templateModule (compile : Compiler) (path source : Text) (c : Component) :
    Outcome Failure Text :=
  match visibleTemplate? c with
  | none => Outcome.fail (.compileFailure path "component has no template".toList)
  | some block =>
    match compile block.content with
    | .ok code => .ok code
    | .error .splitCharacter => .error .splitCharacter
    | .error (.failed e) => do
      let place := block.span.start + e.span.start
      let message ← Outcome.ofCut (located? source place e.fault.message)
      Outcome.fail (.compileFailure path message)

end ModuleServer.Component
