import DateFields.Path.Basic

/-!
# Module specifiers

A specifier that begins with a dot, or at the root, is a path seen from the directory of the
importing file; any other is bare, the name of a package.
-/

namespace DateFields.Modules

/-- The specifier is a path. -/
def isPathSpecifier (specifier : String) : Bool :=
  specifier.toList.head? == some '.' || Path.isAbsolute ⟨specifier⟩

/-- The path that a path specifier means in a file. -/
def specifiedPath (specifier : String) (importer : Path) : Path :=
  importer.directory.join ⟨specifier⟩

end DateFields.Modules
