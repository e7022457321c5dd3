import DateFields.Path.Place

/-!
# File trees

Directories, files and symbolic links below a root, and the meaning of paths in them.

* `FileTree.locate` — the file or directory a path leads to, links followed and `..` taken where
  the walk really is;
* `FileTree.settle` — the canonical path of what a path leads to, and its lexical normal form when
  it leads nowhere;
* `FileTree.sameFile` — two paths name the same file: their lexical normal forms agree, or what
  they settle to does;
* `FileTree.readText` — the text in a file.

There is no working directory, so a relative path leads nowhere.  There are no permissions either:
every directory can be entered and every file be read.
-/

namespace DateFields

/-- What stands at a place in a file tree. -/
inductive FileTree.Entry where
  /-- A directory. -/
  | directory
  /-- A file with its content. -/
  | file (content : ByteArray)
  /-- A symbolic link with its target, relative to the directory the link stands in. -/
  | link (target : Path)

/-- A file tree: what stands where, places told by the names down from the root. -/
structure FileTree where
  /-- Everything but the root. -/
  entries : List (List String × FileTree.Entry)

namespace FileTree

/-- A tree with nothing in it. -/
def empty : FileTree := ⟨[]⟩

/-- What stands at a place.  The root is a directory. -/
def entryAt? (t : FileTree) : List String → Option Entry
  | [] => some .directory
  | names => t.entries.lookup names

/-- Why a path cannot be used. -/
inductive Fault where
  /-- There is nothing there. -/
  | missing
  /-- The way goes on through something that is no directory. -/
  | notDirectory
  /-- The links on the way lead on and on. -/
  | tooManyLinks
  /-- A directory has no text. -/
  | isDirectory
  /-- The content is no text. -/
  | notText
  deriving DecidableEq, Repr

/-- The wording of a fault. -/
def Fault.reason : Fault → String
  | .missing => "No such file or directory (os error 2)"
  | .notDirectory => "Not a directory (os error 20)"
  | .tooManyLinks => "Too many levels of symbolic links (os error 40)"
  | .isDirectory => "Is a directory (os error 21)"
  | .notText => "stream did not contain valid UTF-8"

/-! ### Walking -/

/-- A move on the way along a path.  Unlike for a component, standing still counts: one can only
stand still in a directory. -/
inductive Move where
  /-- An empty segment or `.`. -/
  | stay
  /-- `..` -/
  | up
  /-- Into a directory, by name. -/
  | into (name : String)
  deriving DecidableEq, Repr

/-- The move a segment of a path stands for. -/
def Move.ofSegment : List Char → Move
  | [] => .stay
  | ['.'] => .stay
  | ['.', '.'] => .up
  | cs => .into (String.ofList cs)

/-- The moves along a path. -/
def moves (p : Path) : List Move := p.segments.map Move.ofSegment

variable (t : FileTree)

/-- The place holds a directory. -/
def isDirectoryAt (place : List String) : Bool :=
  match t.entryAt? place with
  | some .directory => true
  | _ => false

/-- Walk from a place.  `link` continues behind a link: from where its target starts, along the
moves of the target and those that are left. -/
def walkFrom (link : List String → List Move → Except Fault (List String)) :
    List String → List Move → Except Fault (List String)
  | place, [] => .ok place
  | place, move :: rest =>
    if !t.isDirectoryAt place then .error .notDirectory
    else match move with
      | .stay => walkFrom link place rest
      | .up => walkFrom link place.dropLast rest
      | .into name =>
        match t.entryAt? (place ++ [name]) with
        | none => .error .missing
        | some (.link target) =>
          link (if target.isAbsolute then [] else place) (moves target ++ rest)
        | some _ => walkFrom link (place ++ [name]) rest

/-- Walk from a place, through at most so many links. -/
def walk : Nat → List String → List Move → Except Fault (List String)
  | 0 => t.walkFrom fun _ _ => .error .tooManyLinks
  | links + 1 => t.walkFrom (walk links)

/-- How many links may stand on one way. -/
def linkLimit : Nat := 40

/-- The place a path leads to. -/
def locate (p : Path) : Except Fault (List String) :=
  if p.isAbsolute then t.walk linkLimit [] (moves p) else .error .missing

/-- The path of a place. -/
def pathOf (place : List String) : Path := ⟨"/" ++ "/".intercalate place⟩

/-! ### Identity of files -/

/-- The canonical path of what a path leads to, or the lexical normal form of a path that leads
nowhere. -/
def settle (p : Path) : Path :=
  match t.locate p with
  | .ok place => pathOf place
  | .error _ => p.normalize

/-- Two paths name the same file. -/
def sameFile (p q : Path) : Bool := p.place = q.place || t.settle p = t.settle q

/-! ### Looking at files -/

/-- What a path leads to. -/
def find? (p : Path) : Option Entry :=
  match t.locate p with
  | .ok place => t.entryAt? place
  | .error _ => none

/-- The path leads to something. -/
def exists? (p : Path) : Bool := (t.find? p).isSome

/-- The path leads to a file. -/
def isFile (p : Path) : Bool :=
  match t.find? p with
  | some (.file _) => true
  | _ => false

/-- The path leads to a directory. -/
def isDirectory (p : Path) : Bool :=
  match t.find? p with
  | some .directory => true
  | _ => false

/-- The text in the file that a path leads to. -/
def readText (p : Path) : Except Fault String := do
  match t.entryAt? (← t.locate p) with
  | some (.file content) =>
    match String.fromUTF8? content with
    | some s => return s
    | none => .error .notText
  | some .directory => .error .isDirectory
  | _ => .error .missing

end FileTree

end DateFields
