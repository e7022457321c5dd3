import DateFields.Modules.Basic
import DateFields.Path.Place

/-!
# Registered modules

A fixed list of packages by name and of modules by path, for programs whose files are not at hand.

* `Registry.addPackage`, `Registry.addFile` — a registration; a later one for the same name or
  place counts in front of an earlier one;
* `Registry.resolve` — the artifact registered for a specifier.  A module may also be named with
  `.js` behind its path; as every path is a text here, the case of one that has none, and from which
  no `.js` is taken, is left out.
-/

namespace DateFields.Modules

/-- Registered modules, the latest first. -/
structure Registry where
  /-- Packages by name. -/
  packages : List (String × Path)
  /-- Modules by the place their path leads to. -/
  files : List (Place × Path)

namespace Registry

/-- No module is registered. -/
def empty : Registry := ⟨[], []⟩

/-- A package registered under its name. -/
def addPackage (r : Registry) (name : String) (artifact : Path) : Registry :=
  { r with packages := (name, artifact) :: r.packages }

/-- A module registered under its path, which leaves out the extension. -/
def addFile (r : Registry) (modulePath artifact : Path) : Registry :=
  { r with files := (modulePath.place, artifact) :: r.files }

/-- A text without `.js` at its end, if it ends so. -/
def stem? (text : String) : Option String :=
  match text.toList.reverse with
  | 's' :: 'j' :: '.' :: rest => some (String.ofList rest.reverse)
  | _ => none

/-- The module whose place has the components of a path. -/
def fileAlong (r : Registry) (p : Path) : Option Path :=
  (r.files.find? fun f => f.1.components == p.components).map Prod.snd

/-- The artifact registered for a specifier in a file: the one at the place it leads to, or else the
one along the text of that place without `.js`. -/
def resolve (r : Registry) (specifier : String) (importer : Path) : Option Path :=
  if isPathSpecifier specifier then
    let target := (specifiedPath specifier importer).place
    r.files.lookup target <|> do r.fileAlong ⟨← stem? target.path.text⟩
  else r.packages.lookup specifier

end Registry

end DateFields.Modules
