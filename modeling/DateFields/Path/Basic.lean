import DateFields.Text.Split

/-!
# Paths

A path is a text.  What it means is the list of its components: repeated and trailing slashes and
interior `.` segments do not show in it.  The paths of a file system may be any bytes; those that are
not UTF-8 are left out.

* `Path.components` — the steps of a path from its start;
* `Path.join` — a path read from a directory; an absolute path forgets the directory;
* `Path.parent?`, `Path.ancestors` — the path without its last component, and so on upwards.
-/

namespace DateFields

/-- A path, kept as it is spelled.  There is none for bytes that are not UTF-8. -/
structure Path where
  /-- The spelling. -/
  text : String
  deriving DecidableEq, Repr, Inhabited

namespace Path

/-- One step of a path. -/
inductive Component where
  /-- The leading slash of an absolute path. -/
  | root
  /-- A leading `.`. -/
  | here
  /-- `..` -/
  | up
  /-- An ordinary name. -/
  | name (s : String)
  deriving DecidableEq, Repr

/-- The segments between slashes. -/
def segments (p : Path) : List (List Char) := Text.splitOn (· == '/') p.text.toList

/-- A path that starts at the root. -/
def isAbsolute (p : Path) : Bool := p.text.toList.head? == some '/'

/-- The step a segment stands for; empty segments and `.` are no step. -/
def Component.ofSegment : List Char → Option Component
  | [] => none
  | ['.'] => none
  | ['.', '.'] => some .up
  | cs => some (.name (String.ofList cs))

/-- What stands before the ordinary steps: the root, a leading `.`, or nothing. -/
def start (p : Path) : List Component :=
  if p.isAbsolute then [.root]
  else if p.segments.head? = some ['.'] then [.here]
  else []

/-- The steps of a path.  Two paths with the same components are the same path. -/
def components (p : Path) : List Component :=
  p.start ++ p.segments.filterMap Component.ofSegment

/-- The segment a component is written as. -/
def Component.text : Component → String
  | .root => ""
  | .here => "."
  | .up => ".."
  | .name s => s

/-- The plain spelling of a list of components. -/
def ofComponents : List Component → Path
  | [.root] => ⟨"/"⟩
  | cs => ⟨"/".intercalate (cs.map Component.text)⟩

/-- `p` seen from the directory `dir`. -/
def join (dir p : Path) : Path :=
  if p.isAbsolute then p
  else if dir.text.isEmpty || dir.text.toList.getLast? == some '/' then ⟨dir.text ++ p.text⟩
  else ⟨dir.text ++ "/" ++ p.text⟩

/-- The path without its last component; the root and the empty path have none. -/
def parent? (p : Path) : Option Path :=
  match p.components.reverse with
  | [] => none
  | .root :: _ => none
  | _ :: above => some (ofComponents above.reverse)

/-- The last component, when it is an ordinary name. -/
def fileName? (p : Path) : Option String :=
  match p.components.getLast? with
  | some (.name s) => some s
  | _ => none

/-- The initial runs of a list of components, longest first. -/
def runs : List Component → List (List Component)
  | [] => [[]]
  | c :: cs => (runs cs).map (c :: ·) ++ [[]]

/-- A path and every directory above it, nearest first.  A relative path ends at the empty one. -/
def ancestors (p : Path) : List Path :=
  match p.components with
  | .root :: cs => (runs cs).map fun l => ofComponents (.root :: l)
  | cs => (runs cs).map ofComponents

/-- The directory a file stands in; `.` when its path has no parent. -/
def directory (p : Path) : Path := p.parent?.getD ⟨"."⟩

/-- A path with a dot and an extension put behind its spelling. -/
def withExtension (p : Path) (extension : String) : Path := ⟨p.text ++ "." ++ extension⟩

end Path

end DateFields
