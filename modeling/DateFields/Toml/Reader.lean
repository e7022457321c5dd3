import DateFields.Toml.Scalar

/-!
# Reading TOML

A document is a list of lines: keys with values, and headers that say which table the lines below
them belong to.

* `Toml.readValue`, `Toml.readArray`, `Toml.readPairs` — a value, the rest of a list, and the rest
  of a table between braces;
* `Toml.readLines` — the lines of a document, gathered under their headers;
* `Toml.read?` — the table that a document spells, if it spells one.

As for every reader here, the steps that are allowed outnumber the characters of the text.
-/

namespace DateFields.Toml

/-- A value under a dotted key: the keys on the way, the last one, and the value. -/
abbrev Line := List String × String × Value

/-! ### Values -/

mutual

/-- The value at the head of a text, nested at most `room` deep. -/
def readValue (room : Nat) : Nat → List Char → Option (Value × List Char)
  | 0, _ => none
  | n + 1, cs =>
    match cs with
    | '"' :: _ => (readString cs).map fun (s, rest) => (.string s, rest)
    | '\'' :: _ => (readString cs).map fun (s, rest) => (.string s, rest)
    | '[' :: rest =>
      match room with
      | 0 => none
      | room + 1 => (readArray room n rest).map fun (items, rest) => (.array items, rest)
    | '\x7b' :: rest =>
      match room with
      | 0 => none
      | room + 1 => do
        match skipBlanks rest with
        | '\x7d' :: rest => return (.table .written true [], rest)
        | _ =>
          let (pairs, rest) ← readPairs room n rest
          return (← Table.between pairs, rest)
    | cs => readScalar cs

/-- The items of a list and its closing bracket; a comma may stand behind the last item. -/
def readArray (room : Nat) : Nat → List Char → Option (List Value × List Char)
  | 0, _ => none
  | n + 1, cs => do
    match ← skipLines (n + 1) cs with
    | ']' :: rest => return ([], rest)
    | cs =>
      let (v, rest) ← readValue room n cs
      match ← skipLines (n + 1) rest with
      | ']' :: rest => return ([v], rest)
      | ',' :: rest =>
        let (vs, rest) ← readArray room n rest
        return (v :: vs, rest)
      | _ => none

/-- The pairs of a table between braces and its closing brace; all on one line, and no comma behind
the last. -/
def readPairs (room : Nat) : Nat → List Char → Option (List Line × List Char)
  | 0, _ => none
  | n + 1, cs => do
    let ((path, key), rest) ← readKeys cs
    let (v, rest) ← readValue room n (skipBlanks (← expect '=' rest))
    match skipBlanks rest with
    | '\x7d' :: rest => return ([(path, key, v)], rest)
    | ',' :: rest =>
      let (pairs, rest) ← readPairs room n rest
      return ((path, key, v) :: pairs, rest)
    | _ => none

end

/-! ### Lines -/

/-- A key, its value, and the end of the line. -/
def readPairLine (n : Nat) (cs : List Char) : Option (Line × List Char) := do
  let ((path, key), rest) ← readKeys cs
  let (v, rest) ← readValue depthLimit n (skipBlanks (← expect '=' rest))
  return ((path, key, v), ← endLine rest)

/-- What a header names. -/
structure Header where
  /-- One more table of a list, and not a table. -/
  inList : Bool
  /-- The keys on the way. -/
  path : List String
  /-- The last key. -/
  key : String

/-- A header between brackets, from behind the first one on, and the end of its line. -/
def readHeader (cs : List Char) : Option (Header × List Char) :=
  match cs with
  | '[' :: rest => do
    let ((path, key), rest) ← readKeys rest
    return (⟨true, path, key⟩, ← endLine (← expect ']' (← expect ']' rest)))
  | cs => do
    let ((path, key), rest) ← readKeys cs
    return (⟨false, path, key⟩, ← endLine (← expect ']' rest))

/-- A header with the lines under it. -/
structure Section where
  /-- The header. -/
  header : Header
  /-- The lines. -/
  lines : List Line

/-- The lines up to the first header, and the sections from there on. -/
def readLines : Nat → List Char → Option (List Line × List Section)
  | 0, _ => none
  | n + 1, cs =>
    match skipBlanks cs with
    | [] => some ([], [])
    | '\n' :: rest => readLines n rest
    | '#' :: rest => do readLines n (← lineEndOrEnd? (rest.dropWhile isPrintable))
    | '[' :: rest => do
      let (header, rest) ← readHeader rest
      let (lines, sections) ← readLines n rest
      return ([], ⟨header, lines⟩ :: sections)
    | cs => do
      let (line, rest) ← readPairLine n cs
      let (lines, sections) ← readLines n rest
      return (line :: lines, sections)

/-! ### Documents -/

/-- A table with a section added. -/
def Table.addSection (root : Table) (s : Section) : Option Table :=
  if s.header.inList then root.addElement s.header.path s.header.key s.lines
  else root.addTable s.header.path s.header.key s.lines

/-- A text without the byte order mark it may begin with. -/
def dropMark : List Char → List Char
  | '\ufeff' :: rest => rest
  | cs => cs

/-- The table that a document spells, if it spells one. -/
def read? (text : String) : Option Fields := do
  let cs := plainLineEnds (dropMark text.toList)
  let (lines, sections) ← readLines (2 * cs.length + 2) cs
  let root ← (⟨.written, []⟩ : Table).assignAll lines
  return (← sections.foldlM Table.addSection root).fields

end DateFields.Toml
