import DateFields.Toml.Lexical
import DateFields.Toml.Table

/-!
# Numbers, dates and truth values of TOML

* `Toml.readScalar` — a value that is neither a string nor made of other values.

Dates and times are checked against the calendar and the clock; integers have 64 bits; a number
beyond the range of doubles is refused.
-/

namespace DateFields.Toml

/-! ### Digits -/

/-- Digits of a class, with single underscores between them; the underscores are dropped. -/
def readDigitsOf (isDigit : Char → Bool) : List Char → Option (List Char × List Char)
  | [] => none
  | c :: rest =>
    if isDigit c then some (go [c] rest)
    else none
where
  /-- The digits behind those read so far. -/
  go (read : List Char) : List Char → List Char × List Char
    | '_' :: d :: rest => if isDigit d then go (read ++ [d]) rest else (read, '_' :: d :: rest)
    | d :: rest => if isDigit d then go (read ++ [d]) rest else (read, d :: rest)
    | [] => (read, [])

/-- A sign, if there is one: whether it is a minus. -/
def readSign : List Char → Bool × List Char
  | '+' :: rest => (false, rest)
  | '-' :: rest => (true, rest)
  | cs => (false, cs)

/-- The digits of a decimal integer: a zero stands alone. -/
def readWhole : List Char → Option (List Char × List Char)
  | '0' :: rest => some (['0'], rest)
  | cs => readDigitsOf Char.isDigit cs

/-- The value of digits in a base. -/
def digitsIn (base : Nat) (ds : List Char) : Nat :=
  ds.foldl (fun n c => base * n + (hexDigit? c).getD 0) 0

/-! ### Dates and times -/

/-- Exactly so many decimal digits, as a number. -/
def readFixed (n : Nat) (cs : List Char) : Option (Nat × List Char) :=
  let ds := cs.take n
  if ds.length = n && ds.all Char.isDigit then some (Numeral.digitsValue ds, cs.drop n) else none

/-- A given character. -/
def expect (c : Char) : List Char → Option (List Char)
  | d :: rest => if d = c then some rest else none
  | [] => none

/-- The number of days of a month. -/
def daysOf (year month : Nat) : Nat :=
  if month = 2 then
    if year % 4 = 0 && (year % 100 ≠ 0 || year % 400 = 0) then 29 else 28
  else if month = 4 || month = 6 || month = 9 || month = 11 then 30
  else 31

/-- A date. -/
def readDate (cs : List Char) : Option (List Char) := do
  let (year, cs) ← readFixed 4 cs
  let (month, cs) ← readFixed 2 (← expect '-' cs)
  let (day, cs) ← readFixed 2 (← expect '-' cs)
  if 1 ≤ month && month ≤ 12 && 1 ≤ day && day ≤ daysOf year month then some cs else none

/-- A time of day; a leap second counts. -/
def readTime (cs : List Char) : Option (List Char) := do
  let (hour, cs) ← readFixed 2 cs
  let (minute, cs) ← readFixed 2 (← expect ':' cs)
  let (second, cs) ← readFixed 2 (← expect ':' cs)
  if hour ≤ 23 && minute ≤ 59 && second ≤ 60 then
    match cs with
    | '.' :: rest =>
      match rest.span Char.isDigit with
      | ([], _) => none
      | (_, rest) => some rest
    | cs => some cs
  else none

/-- A distance from universal time, if there is one. -/
def skipOffset (cs : List Char) : Option (List Char) :=
  match cs with
  | 'Z' :: rest => some rest
  | 'z' :: rest => some rest
  | c :: rest =>
    if c == '+' || c == '-' then do
      let (hour, rest) ← readFixed 2 rest
      let (minute, rest) ← readFixed 2 (← expect ':' rest)
      if hour ≤ 23 && minute ≤ 59 then some rest else none
    else some cs
  | [] => some []

/-- The time that may stand behind a date. -/
def skipTime (cs : List Char) : Option (List Char) :=
  match cs with
  | c :: rest =>
    if c == 'T' || c == 't' || c == ' ' then
      match readTime rest with
      | some rest => skipOffset rest
      | none => some cs
    else some cs
  | [] => some []

/-- A date, a date with a time, or a time. -/
def readMoment (cs : List Char) : Option (Value × List Char) :=
  match readDate cs with
  | some rest => (skipTime rest).map (.moment, ·)
  | none => (readTime cs).map (.moment, ·)

/-! ### Numbers -/

/-- A fraction, if there is one. -/
def readFraction : List Char → Option (Option (List Char) × List Char)
  | '.' :: rest => (readDigitsOf Char.isDigit rest).map fun (ds, rest) => (some ds, rest)
  | cs => some (none, cs)

/-- A power of ten, if there is one. -/
def readExponent : List Char → Option (Option Int × List Char)
  | c :: rest =>
    if c == 'e' || c == 'E' then do
      let (negative, rest) := readSign rest
      let (ds, rest) ← readDigitsOf Char.isDigit rest
      let n : Int := Numeral.digitsValue ds
      return (some (if negative then -n else n), rest)
    else some (none, c :: rest)
  | [] => some (none, [])

/-- The integer fits into a signed word of 64 bits. -/
def inWord (n : Int) : Bool := Int64.minValue.toInt ≤ n && n ≤ Int64.maxValue.toInt

/-- An integer or a number with a fraction or a power of ten. -/
def readDecimal (cs : List Char) : Option (Value × List Char) := do
  let (negative, cs) := readSign cs
  let (whole, cs) ← readWhole cs
  let (fraction, cs) ← readFraction cs
  let (exponent, cs) ← readExponent cs
  if fraction.isNone && exponent.isNone then
    let n : Int := Numeral.digitsValue whole
    let n := if negative then -n else n
    if inWord n then return (.integer n, cs) else none
  -- a number beyond the range of doubles is taken for an infinity, and only minus infinity passes
  else if negative || (Numeral.mk negative whole fraction exponent).isFinite then
    return (.float, cs)
  else none

/-- An integer in base 16, 8 or 2. -/
def readBased (base : Nat) (cs : List Char) : Option (Value × List Char) := do
  let isDigit (c : Char) : Bool := (hexDigit? c).any (· < base)
  let (ds, cs) ← readDigitsOf isDigit cs
  if inWord (digitsIn base ds) then return (.integer (digitsIn base ds), cs) else none

/-- An infinity or a number that is none, with or without a sign. -/
def readSpecial (cs : List Char) : Option (Value × List Char) :=
  match (readSign cs).2 with
  | 'i' :: 'n' :: 'f' :: rest => some (.float, rest)
  | 'n' :: 'a' :: 'n' :: rest => some (.float, rest)
  | _ => none

/-- A truth value, a number, a date or a time. -/
def readScalar (cs : List Char) : Option (Value × List Char) :=
  match cs with
  | 't' :: 'r' :: 'u' :: 'e' :: rest => some (.boolean true, rest)
  | 'f' :: 'a' :: 'l' :: 's' :: 'e' :: rest => some (.boolean false, rest)
  | '0' :: 'x' :: rest => readBased 16 rest
  | '0' :: 'o' :: rest => readBased 8 rest
  | '0' :: 'b' :: rest => readBased 2 rest
  | cs => readMoment cs <|> readSpecial cs <|> readDecimal cs

end DateFields.Toml
