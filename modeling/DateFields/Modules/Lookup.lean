import DateFields.Modules.Registry
import DateFields.Modules.Search

/-!
# Finding modules

The ways to find the artifact that an import loads: a list of registered modules, a search in the
file tree, or whatever a host has for it.
-/

namespace DateFields.Modules

/-- A way to find modules. -/
inductive Lookup where
  /-- Among registered modules. -/
  | registered (r : Registry)
  /-- In the file tree. -/
  | searched (s : Search)
  /-- As a host answers. -/
  | hosted (answer : String → Path → Option Path)

/-- The artifact that a specifier in a file means. -/
def Lookup.resolve (t : FileTree) (specifier : String) (importer : Path) : Lookup → Option Path
  | .registered r => r.resolve specifier importer
  | .searched s => s.resolve t specifier importer
  | .hosted answer => answer specifier importer

end DateFields.Modules
