import DateFields.FileTree.Basic
import DateFields.Json.Fields
import DateFields.Modules.Basic

/-!
# Searching for modules in a file tree

A path specifier is looked for where it leads.  A bare one is looked for in the `node_modules`
directories of the importing file's directory and of those above it, the nearest first.

At one candidate path, the path itself as a file comes first, then the path with an extension, then
what the manifest of a directory names, and last the index file of the directory.

* `Search.load?` — the file at a candidate path;
* `Search.resolve` — the canonical path of the file a specifier means.
-/

namespace DateFields.Modules

/-- A search, given by the extensions to try, without their dots, in order. -/
structure Search where
  /-- The extensions. -/
  extensions : List String

namespace Search

/-- The search for scripts, data and native modules. -/
def standard : Search := ⟨["js", "json", "node"]⟩

/-- The main file that a manifest names: a field of an object, or the only item of a list. -/
def mainOf : Json → Option String
  | .object fields => do Json.string? (← ← Json.field? fields "main")
  | .array [.string main] => some main
  | _ => none

variable (s : Search) (t : FileTree)

/-- The main file named in a manifest; a manifest that cannot be read names none. -/
def manifestMain? (manifest : Path) : Option String :=
  match t.readText manifest with
  | .error _ => none
  | .ok text => do
    let main ← mainOf (← Json.read? text)
    if main.isEmpty then none else some main

/-- The path as a file, or with the first extension that gives one. -/
def file? (p : Path) : Option Path := (p :: s.extensions.map p.withExtension).find? t.isFile

/-- The index file of a directory. -/
def index? (dir : Path) : Option Path :=
  (s.extensions.map fun e => dir.join ⟨"index." ++ e⟩).find? t.isFile

/-- The file that the manifest of a directory names: as a file, or as a directory with an index. -/
def mainFile? (dir : Path) : Option Path := do
  let target := dir.join ⟨← manifestMain? t (dir.join ⟨"package.json"⟩)⟩
  s.file? t target <|> s.index? t target

/-- The file that stands for a directory. -/
def directory? (dir : Path) : Option Path :=
  if t.isDirectory dir then s.mainFile? t dir <|> s.index? t dir else none

/-- The file at a candidate path. -/
def load? (p : Path) : Option Path := s.file? t p <|> s.directory? t p

/-- The `node_modules` directories to look in, from a directory upwards. -/
def packageDirectories (dir : Path) : List Path :=
  (dir.ancestors.filter fun d => d.fileName? ≠ some "node_modules").map (·.join ⟨"node_modules"⟩)

/-- The file that a specifier means, by the path it was found under. -/
def find? (specifier : String) (importer : Path) : Option Path :=
  if isPathSpecifier specifier then s.load? t (specifiedPath specifier importer)
  else (packageDirectories importer.directory).findSome? fun d => s.load? t (d.join ⟨specifier⟩)

/-- The canonical path of the file that a specifier means in a file. -/
def resolve (specifier : String) (importer : Path) : Option Path :=
  (s.find? t specifier importer).map t.settle

end Search

end DateFields.Modules
