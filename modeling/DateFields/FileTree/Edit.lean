import DateFields.FileTree.Basic

/-!
# Changing a file tree

* `FileTree.makeDirectory` — a directory and all directories above it;
* `FileTree.write` — a file with new content, where the path leads; links at its end are followed,
  also to where nothing stands yet (`FileTree.slot`);
* `FileTree.makeLink` — a symbolic link;
* `FileTree.remove` — a file, a link or a directory taken away, a link without what it leads to.

A change that meets a file where it needs a directory leaves the tree as it is.
-/

namespace DateFields.FileTree

/-- The tree with one more entry, or with another one in its place. -/
def set (t : FileTree) (place : List String) (e : Entry) : FileTree :=
  ⟨(place, e) :: t.entries.filter (·.1 ≠ place)⟩

/-- One move further, with a directory made where nothing stands; the tree and the place reached. -/
def enter (t : FileTree) (place : List String) (m : Move) : Option (FileTree × List String) :=
  match m with
  | .stay => some (t, place)
  | .up => some (t, place.dropLast)
  | .into name =>
    match t.entryAt? (place ++ [name]) with
    | none => some (t.set (place ++ [name]) .directory, place ++ [name])
    | some _ =>
      match t.walk linkLimit place [m, .stay] with
      | .ok place => some (t, place)
      | .error _ => none

/-- The place of a directory, made together with all directories above it. -/
def reach (t : FileTree) (p : Path) : Option (FileTree × List String) :=
  (moves p).foldlM (fun s m => enter s.1 s.2 m) (t, [])

/-- A directory and all directories above it. -/
def makeDirectory (t : FileTree) (p : Path) : FileTree := ((t.reach p).map Prod.fst).getD t

/-- An entry put under the last name of a path, the directories above it made. -/
def place (t : FileTree) (p : Path) (e : Entry) : FileTree :=
  match p.parent?, p.fileName? with
  | some parent, some name =>
    match t.reach parent with
    | some (t', dir) => t'.set (dir ++ [name]) e
    | none => t
  | _, _ => t

/-- The place that moves from a directory end at, whether something stands there or not.  `follow`
continues behind a link at the end: from where its target starts, along the moves of the target. -/
def slotFrom (t : FileTree) (follow : List String → List Move → Option (List String))
    (dir : List String) (ms : List Move) : Option (List String) :=
  match ms.getLast?, t.walk linkLimit dir ms.dropLast with
  | some (.into name), .ok dir =>
    if !t.isDirectoryAt dir then none
    else match t.entryAt? (dir ++ [name]) with
      | some (.link target) => follow (if target.isAbsolute then [] else dir) (moves target)
      | _ => some (dir ++ [name])
  | _, _ => none

/-- The place of the file that a path leads to or would lead to, through at most so many links at
its end. -/
def slot (t : FileTree) : Nat → List String → List Move → Option (List String)
  | 0 => t.slotFrom fun _ _ => none
  | links + 1 => t.slotFrom (slot t links)

/-- A file with new content, the directories above it made. -/
def write (t : FileTree) (p : Path) (content : ByteArray) : FileTree :=
  match p.parent?.bind t.reach with
  | none => t
  | some (t', _) =>
    match t'.slot linkLimit [] (moves p) with
    | none => t
    | some place => if t'.isDirectoryAt place then t else t'.set place (.file content)

/-- A symbolic link. -/
def makeLink (t : FileTree) (p target : Path) : FileTree := t.place p (.link target)

/-- What stands under the last name of a path taken away, with everything below it. -/
def remove (t : FileTree) (p : Path) : FileTree :=
  match p.parent?, p.fileName? with
  | some parent, some name =>
    match t.locate parent with
    | .ok dir => ⟨t.entries.filter fun e => !(dir ++ [name]).isPrefixOf e.1⟩
    | .error _ => t
  | _, _ => t

end DateFields.FileTree
