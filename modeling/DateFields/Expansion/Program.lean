import DateFields.Config.Basic
import DateFields.Modules.Lookup
import DateFields.TypeTable.Basic

/-!
# Marker imports and marker calls

A program is what its units have in common.  Where the marker is used is decided by files and
never by the names that a unit has chosen.

* `Program.isMarkerImport` — an import that resolves to the file that implements the marker;
* `Program.isMarkerCall` — a call that resolves to the declaration of the marker.
-/

namespace DateFields

/-- What the units of a program have in common, apart from what is known of its types. -/
structure Program where
  /-- The files at hand. -/
  files : FileTree
  /-- The way imports are resolved. -/
  modules : Modules.Lookup
  /-- The configuration. -/
  config : Config

/-- The declaration is the marker: the function of that name in the declaring file.  A signature in
a comment declares nothing. -/
def Marker.isDeclaredBy (m : Marker) (t : FileTree) (d : Declaration) : Bool :=
  d.kind ≠ .documented && t.sameFile d.file m.declaration && d.name = some m.function

namespace Program

variable (p : Program)

/-- The node, in a file, imports the module of the marker. -/
def isMarkerImport (file : Path) : Node → Bool
  | .importDecl _ specifier =>
    (p.modules.resolve p.files specifier file).any
      (p.files.sameFile · p.config.marker.implementation)
  | _ => false

/-- The node, in a file, calls the marker. -/
def isMarkerCall (types : TypeTable) (file : Path) : Node → Bool
  | .call id callee _ _ =>
    (types.declarationOf? file id callee).any (p.config.marker.isDeclaredBy p.files)
  | _ => false

end Program

end DateFields
