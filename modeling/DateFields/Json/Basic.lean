import DateFields.Numeral.Scaled
import DateFields.Text.Quoted

/-!
# JSON values

* `Json` — a JSON document: objects keep the order and the repetitions of their fields, and a
  number keeps its digits;
* `Json.fits` — the value can be held in memory: it is nested no deeper than allowed, machine words
  read no number as infinite, and every string is a text;
* `Json.render` — the compact spelling of a value.
-/

namespace DateFields

/-- A JSON value. -/
inductive Json where
  /-- `null` -/
  | null
  /-- `true` or `false` -/
  | bool (b : Bool)
  /-- A number. -/
  | number (n : Numeral)
  /-- A string. -/
  | string (s : String)
  /-- A list of values. -/
  | array (items : List Json)
  /-- Fields in the order they are written. -/
  | object (fields : List (String × Json))
  /-- A string, or an object with a field name, that escapes half of a surrogate pair: it can be
  skipped but stands for nothing. -/
  | garbled
  deriving Inhabited

namespace Json

/-! ### Plain values -/

/-- A natural number as a value. -/
def ofNat (n : Nat) : Json := .number (.ofNat n)

/-- A list of strings as a value. -/
def ofStrings (l : List String) : Json := .array (l.map .string)

/-- What is there, or `null`. -/
def ofOption {α : Type} (f : α → Json) : Option α → Json
  | none => .null
  | some a => f a

/-! ### Size limits -/

mutual

/-- The value is nested at most `room` deep, its numbers are finite, and no part of it is
garbled. -/
def fits (room : Nat) : Json → Bool
  | .null => true
  | .bool _ => true
  | .string _ => true
  | .number n => n.toScaled.isFinite
  | .array items =>
    match room with
    | 0 => false
    | room + 1 => itemsFit room items
  | .object fields =>
    match room with
    | 0 => false
    | room + 1 => fieldsFit room fields
  | .garbled => false

/-- `fits` for every item. -/
def itemsFit (room : Nat) : List Json → Bool
  | [] => true
  | v :: vs => fits room v && itemsFit room vs

/-- `fits` for the value of every field. -/
def fieldsFit (room : Nat) : List (String × Json) → Bool
  | [] => true
  | (_, v) :: fs => fits room v && fieldsFit room fs

end

/-! ### Spelling -/

mutual

/-- The compact spelling of a value. -/
def render : Json → String
  | .null => "null"
  | .bool true => "true"
  | .bool false => "false"
  | .number n => n.render
  | .string s => Text.quote s
  | .array items => "[" ++ renderItems items ++ "]"
  | .object fields => "\x7b" ++ renderFields fields ++ "\x7d"
  | .garbled => "null"

/-- Items with commas between them. -/
def renderItems : List Json → String
  | [] => ""
  | [v] => render v
  | v :: vs => render v ++ "," ++ renderItems vs

/-- Fields with commas between them. -/
def renderFields : List (String × Json) → String
  | [] => ""
  | [(k, v)] => Text.quote k ++ ":" ++ render v
  | (k, v) :: fs => Text.quote k ++ ":" ++ render v ++ "," ++ renderFields fs

end

end Json

end DateFields
