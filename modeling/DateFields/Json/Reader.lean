import DateFields.Json.Basic

/-!
# Reading JSON

A strict reader: one value, white space around it, and nothing else.

* `Json.read?` — the value a text spells, if it spells one;
* `Json.readValue`, `Json.readItems`, `Json.readFields` — the value, the rest of a list or the rest
  of an object at the head of a text, together with what follows it.

The readers take a number of steps that is larger than the text is long, so it never runs out.
-/

namespace DateFields.Json

/-- White space between tokens. -/
def isBlank (c : Char) : Bool := c == ' ' || c == '\t' || c == '\n' || c == '\r'

/-- A text from its first token on. -/
def skipBlanks (cs : List Char) : List Char := cs.dropWhile isBlank

/-! ### Strings -/

/-- The value of a hexadecimal digit. -/
def hexDigit? (c : Char) : Option Nat :=
  if c.isDigit then some (c.toNat - '0'.toNat)
  else if 'a' ≤ c && c ≤ 'f' then some (c.toNat - 'a'.toNat + 10)
  else if 'A' ≤ c && c ≤ 'F' then some (c.toNat - 'A'.toNat + 10)
  else none

/-- The value of four hexadecimal digits. -/
def hexUnit? (a b c d : Char) : Option Nat := do
  return ((← hexDigit? a) * 16 + (← hexDigit? b)) * 256 + ((← hexDigit? c) * 16 + (← hexDigit? d))

/-- What an escape stands for: a character, or half of a surrogate pair. -/
inductive Escaped where
  /-- A character. -/
  | char (c : Char)
  /-- A UTF-16 surrogate. -/
  | surrogate (unit : Nat)

/-- The character that a one-letter escape stands for. -/
def simpleEscape? : Char → Option Char
  | '"' => some '"'
  | '\\' => some '\\'
  | '/' => some '/'
  | 'b' => some '\x08'
  | 'f' => some '\x0c'
  | 'n' => some '\n'
  | 'r' => some '\r'
  | 't' => some '\t'
  | _ => none

/-- An escape, from the character behind the backslash on, and what follows it. -/
def readEscape : List Char → Option (Escaped × List Char)
  | 'u' :: a :: b :: c :: d :: rest => do
    let unit ← hexUnit? a b c d
    if 0xD800 ≤ unit && unit ≤ 0xDFFF then return (.surrogate unit, rest)
    else return (.char (Char.ofNat unit), rest)
  | c :: rest => (simpleEscape? c).map fun e => (.char e, rest)
  | [] => none

/-- The character of a surrogate pair, when the two halves come in order. -/
def pair? (high low : Nat) : Option Char :=
  if high < 0xDC00 && 0xDC00 ≤ low then
    some (Char.ofNat (0x10000 + (high - 0xD800) * 0x400 + (low - 0xDC00)))
  else none

/-- The string whose opening mark has just been read, and what follows its closing mark.  The
string is missing when it holds half of a surrogate pair. -/
def readString : Nat → List Char → Option (Option (List Char) × List Char)
  | 0, _ => none
  | _ + 1, [] => none
  | _ + 1, '"' :: rest => some (some [], rest)
  | n + 1, '\\' :: rest => do
    match ← readEscape rest with
    | (.char c, rest) =>
      let (s, rest) ← readString n rest
      return (s.map (c :: ·), rest)
    | (.surrogate high, rest) =>
      match rest with
      | '\\' :: more =>
        match ← readEscape more with
        | (.surrogate low, more) =>
          match pair? high low with
          | some c =>
            let (s, rest) ← readString n more
            return (s.map (c :: ·), rest)
          | none =>
            let (_, rest) ← readString n rest
            return (none, rest)
        | _ =>
          let (_, rest) ← readString n rest
          return (none, rest)
      | _ =>
        let (_, rest) ← readString n rest
        return (none, rest)
  | n + 1, c :: rest =>
    if c.toNat < 0x20 then none
    else do
      let (s, rest) ← readString n rest
      return (s.map (c :: ·), rest)

/-! ### Numbers -/

/-- At least one digit, and what follows the digits. -/
def readDigits (cs : List Char) : Option (List Char × List Char) :=
  match cs.span Char.isDigit with
  | ([], _) => none
  | (ds, rest) => some (ds, rest)

/-- The digits before the point: a zero stands alone. -/
def readWhole : List Char → Option (List Char × List Char)
  | '0' :: rest => some (['0'], rest)
  | cs => readDigits cs

/-- A fraction, if one follows. -/
def readFraction : List Char → Option (Option (List Char) × List Char)
  | '.' :: rest => (readDigits rest).map fun (ds, rest) => (some ds, rest)
  | cs => some (none, cs)

/-- A power of ten, if one follows. -/
def readExponent : List Char → Option (Option Int × List Char)
  | [] => some (none, [])
  | c :: rest =>
    if c == 'e' || c == 'E' then
      match rest with
      | '+' :: rest => (readDigits rest).map fun (ds, rest) => (some (Numeral.digitsValue ds : Int), rest)
      | '-' :: rest => (readDigits rest).map fun (ds, rest) => (some (-(Numeral.digitsValue ds : Int)), rest)
      | rest => (readDigits rest).map fun (ds, rest) => (some (Numeral.digitsValue ds : Int), rest)
    else some (none, c :: rest)

/-- A number, and what follows it. -/
def readNumber (cs : List Char) : Option (Numeral × List Char) := do
  let (negative, cs) := match cs with
    | '-' :: rest => (true, rest)
    | cs => (false, cs)
  let (whole, cs) ← readWhole cs
  let (fraction, cs) ← readFraction cs
  let (exponent, cs) ← readExponent cs
  return (⟨negative, whole, fraction, exponent⟩, cs)

/-! ### Values -/

/-- A string as a value. -/
def ofString? : Option (List Char) → Json
  | none => .garbled
  | some cs => .string (String.ofList cs)

/-- An object, garbled when the name of a field is. -/
def ofFields? : Option (List (String × Json)) → Json
  | none => .garbled
  | some fields => .object fields

mutual

/-- The value at the head of a text. -/
def readValue : Nat → List Char → Option (Json × List Char)
  | 0, _ => none
  | n + 1, cs =>
    match skipBlanks cs with
    | 'n' :: 'u' :: 'l' :: 'l' :: rest => some (.null, rest)
    | 't' :: 'r' :: 'u' :: 'e' :: rest => some (.bool true, rest)
    | 'f' :: 'a' :: 'l' :: 's' :: 'e' :: rest => some (.bool false, rest)
    | '"' :: rest => (readString n rest).map fun (s, rest) => (ofString? s, rest)
    | '[' :: rest =>
      match skipBlanks rest with
      | ']' :: rest => some (.array [], rest)
      | _ => (readItems n rest).map fun (items, rest) => (.array items, rest)
    | '\x7b' :: rest =>
      match skipBlanks rest with
      | '\x7d' :: rest => some (.object [], rest)
      | _ => (readFields n rest).map fun (fields, rest) => (ofFields? fields, rest)
    | cs => (readNumber cs).map fun (v, rest) => (.number v, rest)

/-- The items of a list that is not empty, and what follows the list. -/
def readItems : Nat → List Char → Option (List Json × List Char)
  | 0, _ => none
  | n + 1, cs => do
    let (v, rest) ← readValue n cs
    match skipBlanks rest with
    | ']' :: rest => return ([v], rest)
    | ',' :: rest =>
      let (vs, rest) ← readItems n rest
      return (v :: vs, rest)
    | _ => none

/-- The fields of an object that is not empty, and what follows the object. -/
def readFields : Nat → List Char → Option (Option (List (String × Json)) × List Char)
  | 0, _ => none
  | n + 1, cs =>
    match skipBlanks cs with
    | '"' :: rest => do
      let (key, rest) ← readString n rest
      match skipBlanks rest with
      | ':' :: rest =>
        let (v, rest) ← readValue n rest
        let field := key.map fun k => (String.ofList k, v)
        match skipBlanks rest with
        | '\x7d' :: rest => return (field.map ([·]), rest)
        | ',' :: rest =>
          let (fields, rest) ← readFields n rest
          return (do return (← field) :: (← fields), rest)
        | _ => none
      | _ => none
    | _ => none

end

/-- The value that a text spells, if it spells one and nothing else. -/
def read? (s : String) : Option Json :=
  let cs := s.toList
  match readValue (2 * cs.length + 2) cs with
  | some (v, rest) => if (skipBlanks rest).isEmpty then some v else none
  | none => none

end DateFields.Json
