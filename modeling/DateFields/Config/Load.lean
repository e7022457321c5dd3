import DateFields.Config.Document
import DateFields.TypeTable.Document

/-!
# Loading

Configurations and type tables from texts and from files.

* `LoadError` — why something could not be loaded;
* `Config.ofText`, `Config.load`, `Config.loadIfPresent` — a configuration whose marker paths are
  seen from a directory and settled, and which has no defect;
* `TypeTable.load` — a type table.
-/

namespace DateFields

/-- Why something could not be loaded. -/
inductive LoadError where
  /-- There is no text to be had from a file. -/
  | unreadable (path : Path) (fault : FileTree.Fault)
  /-- A text describes no configuration. -/
  | noConfig
  /-- A text describes no type table. -/
  | noTypeTable
  /-- A configuration cannot be used. -/
  | defective (d : Config.Defect)
  deriving DecidableEq, Repr

/-- The wording of an error. -/
def LoadError.message : LoadError → String
  | .unreadable p fault => "Failed to read " ++ p.text ++ ": " ++ fault.reason
  | .noConfig => "Failed to parse config"
  | .noTypeTable => "Failed to parse type table JSON"
  | .defective d => "Invalid config: " ++ d.message

variable (t : FileTree)

/-- The text in a file. -/
def FileTree.load (p : Path) : Except LoadError String :=
  (t.readText p).mapError (.unreadable p)

namespace Config

/-- A configuration without defects. -/
def checked (c : Config) : Except LoadError Config :=
  match c.defect? with
  | some d => .error (.defective d)
  | none => .ok c

/-- The configuration in a text, its relative paths seen from a directory. -/
def ofText (text : String) (dir : Path) : Except LoadError Config :=
  match read? text with
  | none => .error .noConfig
  | some c => { c with marker := c.marker.anchored t dir }.checked

/-- The configuration in a file, its relative paths seen from the directory of the file. -/
def load (p : Path) : Except LoadError Config := do
  ofText t (← t.load p) p.directory

/-- The configuration in a file, if there is such a file. -/
def loadIfPresent (p : Path) : Except LoadError (Option Config) :=
  if t.exists? p then some <$> load t p else .ok none

end Config

/-- The type table in a text. -/
def TypeTable.ofText (text : String) : Except LoadError TypeTable :=
  match TypeTable.read? text with
  | none => .error .noTypeTable
  | some table => .ok table

/-- The type table in a file. -/
def TypeTable.load (p : Path) : Except LoadError TypeTable := do
  TypeTable.ofText (← t.load p)

end DateFields
