import DateFields.FileTree.Basic

/-!
# Configuration

What the program looks for and what it puts in its place.

* `Marker` — the function whose calls are expanded, told by the files that implement and declare
  it, whatever name a file imports it under;
* `Support` — the module that the expanded calls load;
* `Config` — both, and the spelling of the type that marks a date.

Files are compared by where they are, so the paths of a marker are settled when it is made:
`Marker.settled`, `Marker.anchored`.
-/

namespace DateFields

/-- The function whose calls are expanded. -/
structure Marker where
  /-- The file that an import of it resolves to. -/
  implementation : Path
  /-- The file that declares it. -/
  declaration : Path
  /-- Its name in that file. -/
  function : String
  deriving DecidableEq, Repr

/-- What an expanded call uses. -/
structure Support where
  /-- The module to load. -/
  module : String
  /-- The function of the module to call. -/
  function : String
  /-- What the name of the loaded module begins with in every unit. -/
  stem : String
  deriving DecidableEq, Repr

/-- A configuration. -/
structure Config where
  /-- The function whose calls are expanded. -/
  marker : Marker
  /-- What they are expanded to. -/
  support : Support
  /-- The spelling of the type that marks a date. -/
  timestamp : String
  deriving DecidableEq, Repr

/-- The name of the marker unless another is given. -/
def Marker.standardFunction : String := "toDates"

/-- The support module unless another is given. -/
def Support.standard : Support := ⟨"ts-transformer-dates", "toDatesByArray", "transformerDates"⟩

/-- The type of dates unless another is given. -/
def Config.standardTimestamp : String := "Date"

/-- The configuration for a marker, standard in everything else. -/
def Config.ofMarker (m : Marker) : Config := ⟨m, .standard, Config.standardTimestamp⟩

namespace Marker

variable (t : FileTree)

/-- A marker with the canonical paths of its files. -/
def settled (m : Marker) : Marker :=
  { m with implementation := t.settle m.implementation, declaration := t.settle m.declaration }

/-- A marker with its paths seen from a directory, and settled. -/
def anchored (dir : Path) (m : Marker) : Marker :=
  { m with implementation := dir.join m.implementation, declaration := dir.join m.declaration }
    |>.settled t

/-- The marker of a package: its index files. -/
def ofPackage (dir : Path) (function : String) : Marker :=
  (⟨dir.join ⟨"index.js"⟩, dir.join ⟨"index.d.ts"⟩, function⟩ : Marker).settled t

end Marker

end DateFields
