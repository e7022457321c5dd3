/-!
# Lines, keys and strings of TOML

The pieces a TOML document is made from.  Every reader takes a text and gives what it has read
together with what follows, or nothing.

* `Toml.plainLineEnds` — the text all readers work on: line ends are line feeds;
* `Toml.skipBlanks`, `Toml.skipLines` — blanks, and also comments and line ends;
* `Toml.endLine` — what may stand between a value and the next line;
* `Toml.readKeys` — a dotted key;
* `Toml.readString` — a string in any of the four kinds of quotation marks.
-/

namespace DateFields.Toml

/-! ### Blanks, line ends and comments -/

/-- A blank or a tab. -/
def isBlank (c : Char) : Bool := c == ' ' || c == '\t'

/-- A character that may stand in comments and strings: no control character but the tab. -/
def isPrintable (c : Char) : Bool := c == '\t' || (0x20 ≤ c.toNat && c.toNat ≠ 0x7F)

/-- A text from the first character on that is no blank. -/
def skipBlanks (cs : List Char) : List Char := cs.dropWhile isBlank

/-- A text with every line end a line feed: the carriage return before it is dropped. -/
def plainLineEnds : List Char → List Char
  | '\r' :: '\n' :: rest => '\n' :: plainLineEnds rest
  | c :: rest => c :: plainLineEnds rest
  | [] => []

/-- A line end, if the text begins with one. -/
def lineEnd? : List Char → Option (List Char)
  | '\n' :: rest => some rest
  | _ => none

/-- A line end or the end of the document. -/
def lineEndOrEnd? : List Char → Option (List Char)
  | [] => some []
  | cs => lineEnd? cs

/-- A text without the comment it may begin with. -/
def skipComment : List Char → List Char
  | '#' :: rest => rest.dropWhile isPrintable
  | cs => cs

/-- Behind a value: blanks, perhaps a comment, and the end of the line. -/
def endLine (cs : List Char) : Option (List Char) := lineEndOrEnd? (skipComment (skipBlanks cs))

/-- A text from the first character on that belongs to no blank, comment or line end.  A comment
has to end with its line. -/
def skipLines : Nat → List Char → Option (List Char)
  | 0, _ => none
  | n + 1, cs =>
    match skipBlanks cs with
    | '#' :: rest => do skipLines n (← lineEnd? (rest.dropWhile isPrintable))
    | cs =>
      match lineEnd? cs with
      | some rest => skipLines n rest
      | none => some cs

/-! ### Strings -/

/-- The value of a hexadecimal digit. -/
def hexDigit? (c : Char) : Option Nat :=
  if c.isDigit then some (c.toNat - '0'.toNat)
  else if 'a' ≤ c && c ≤ 'f' then some (c.toNat - 'a'.toNat + 10)
  else if 'A' ≤ c && c ≤ 'F' then some (c.toNat - 'A'.toNat + 10)
  else none

/-- The character of a code point given in hexadecimal digits. -/
def codePoint? (digits : List Char) : Option Char := do
  let n := (← digits.mapM hexDigit?).foldl (fun n d => 16 * n + d) 0
  if n < 0xD800 || (0xE000 ≤ n && n < 0x110000) then some (Char.ofNat n) else none

/-- An escape, from the character behind the backslash on. -/
def readEscape : List Char → Option (Char × List Char)
  | 'b' :: rest => some ('\x08', rest)
  | 't' :: rest => some ('\t', rest)
  | 'n' :: rest => some ('\n', rest)
  | 'f' :: rest => some ('\x0c', rest)
  | 'r' :: rest => some ('\r', rest)
  | '"' :: rest => some ('"', rest)
  | '\\' :: rest => some ('\\', rest)
  | 'u' :: a :: b :: c :: d :: rest => (codePoint? [a, b, c, d]).map (·, rest)
  | 'U' :: a :: b :: c :: d :: e :: f :: g :: h :: rest =>
    (codePoint? [a, b, c, d, e, f, g, h]).map (·, rest)
  | _ => none

/-- The rest of a string in one line, up to a closing quotation mark that escapes may hide. -/
def readBasic : Nat → List Char → Option (List Char × List Char)
  | 0, _ => none
  | _ + 1, [] => none
  | _ + 1, '"' :: rest => some ([], rest)
  | n + 1, '\\' :: rest => do
    let (c, rest) ← readEscape rest
    let (s, rest) ← readBasic n rest
    return (c :: s, rest)
  | n + 1, c :: rest =>
    if isPrintable c then (readBasic n rest).map fun (s, rest) => (c :: s, rest) else none

/-- The rest of a string in one line without escapes. -/
def readLiteral : List Char → Option (List Char × List Char)
  | [] => none
  | '\'' :: rest => some ([], rest)
  | c :: rest =>
    if isPrintable c then (readLiteral rest).map fun (s, rest) => (c :: s, rest) else none

/-- The end of a string of several lines: three quotation marks, and up to two more in front of
them that still belong to the string. -/
def closing? (mark : Char) (cs : List Char) : Option (List Char × List Char) :=
  let run := (cs.takeWhile (· == mark)).length
  if run < 3 then none
  else
    let kept := min (run - 3) 2
    some (List.replicate kept mark, cs.drop (kept + 3))

/-- A text behind the blanks and line ends it begins with. -/
def skipSpace (cs : List Char) : List Char :=
  cs.dropWhile fun c => isBlank c || c == '\n'

/-- The rest of a string of several lines.  With escapes, a backslash at the end of a line hides
everything up to the next visible character. -/
def readLong (mark : Char) (escapes : Bool) : Nat → List Char → Option (List Char × List Char)
  | 0, _ => none
  | _ + 1, [] => none
  | n + 1, c :: rest =>
    match closing? mark (c :: rest) with
    | some end_ => some end_
    | none =>
      if c == '\\' && escapes then
        match skipBlanks rest with
        | '\n' :: rest => readLong mark escapes n (skipSpace rest)
        | _ => do
          let (c, rest) ← readEscape rest
          let (s, rest) ← readLong mark escapes n rest
          return (c :: s, rest)
      else if isPrintable c || c == '\n' then
        (readLong mark escapes n rest).map fun (s, rest) => (c :: s, rest)
      else none

/-- A string of several lines starts behind the line end that may follow its quotation marks. -/
def dropFirstLineEnd : List Char → List Char
  | '\n' :: rest => rest
  | cs => cs

/-- A string, in any of the four kinds of quotation marks. -/
def readString (cs : List Char) : Option (String × List Char) :=
  let found := match cs with
    | '"' :: '"' :: '"' :: rest => readLong '"' true (rest.length + 1) (dropFirstLineEnd rest)
    | '\'' :: '\'' :: '\'' :: rest =>
      readLong '\'' false (rest.length + 1) (dropFirstLineEnd rest)
    | '"' :: rest => readBasic (rest.length + 1) rest
    | '\'' :: rest => readLiteral rest
    | _ => none
  found.map fun (s, rest) => (String.ofList s, rest)

/-! ### Keys -/

/-- A character of a key without quotation marks. -/
def isBare (c : Char) : Bool := c.isAlphanum || c == '-' || c == '_'

/-- One part of a key. -/
def readSimpleKey : List Char → Option (String × List Char)
  | '"' :: rest => (readBasic (rest.length + 1) rest).map fun (s, rest) => (String.ofList s, rest)
  | '\'' :: rest => (readLiteral rest).map fun (s, rest) => (String.ofList s, rest)
  | cs =>
    match cs.span isBare with
    | ([], _) => none
    | (key, rest) => some (String.ofList key, rest)

/-- How many parts a key may have, and how deep values may be nested. -/
def depthLimit : Nat := 79

/-- A dotted key of at most so many parts, blanks around it included: the parts on the way, and
the last one. -/
def readKeysWithin : Nat → List Char → Option ((List String × String) × List Char)
  | 0, _ => none
  | n + 1, cs => do
    let (key, rest) ← readSimpleKey (skipBlanks cs)
    match skipBlanks rest with
    | '.' :: rest =>
      let ((path, last), rest) ← readKeysWithin n rest
      return ((key :: path, last), rest)
    | rest => return (([], key), rest)

/-- A dotted key, blanks around it included. -/
def readKeys : List Char → Option ((List String × String) × List Char) :=
  readKeysWithin depthLimit

end DateFields.Toml
