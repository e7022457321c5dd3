import DateFields.Json.Reader

/-!
# Reading structures from JSON

A structure is written as an object.  Fields it does not know are ignored, a field it knows must
not be repeated, and the order of fields is free.  The form without field names, a list of the values
in the order of the fields, is read for configurations only, and left out here.

* `Json.field?` — the value of a field that is written at most once;
* `Json.required`, `Json.optional`, `Json.defaulted` — a field that must be there, a field that
  may be missing or `null`, and a field that stands for a default when it is missing;
* `Json.naturalBelow?`, `Json.word?` — a bounded number and one of several fixed words.
-/

namespace DateFields.Json

/-- The fields of an object. -/
abbrev Fields := List (String × Json)

/-- How many levels of nesting a document may have. -/
def nestingLimit : Nat := 127

/-- The document a value spells out: itself, or, when it is a string, the value its text spells. -/
def document? : Json → Option Json
  | .string s => read? s
  | v => some v

/-! ### Fields -/

/-- The value of a field, if it is written; fails when the field is written twice. -/
def field? (fields : Fields) (key : String) : Option (Option Json) :=
  match fields.filter (·.1 == key) with
  | [] => some none
  | [(_, v)] => some (some v)
  | _ => none

variable {α : Type}

/-- A field that has to be written. -/
def required (fields : Fields) (key : String) (decode : Json → Option α) : Option α := do
  decode (← ← field? fields key)

/-- A field that may be missing or `null`. -/
def optional (fields : Fields) (key : String) (decode : Json → Option α) : Option (Option α) := do
  match ← field? fields key with
  | none => return none
  | some .null => return none
  | some v => return some (← decode v)

/-- A field that stands for `default` when it is missing. -/
def defaulted (fields : Fields) (key : String) (default : α) (decode : Json → Option α) :
    Option α := do
  match ← field? fields key with
  | none => return default
  | some v => decode v

/-! ### Values -/

/-- The fields of an object. -/
def fields? : Json → Option Fields
  | .object fields => some fields
  | _ => none

/-- A string. -/
def string? : Json → Option String
  | .string s => some s
  | _ => none

/-- `true` or `false`. -/
def bool? : Json → Option Bool
  | .bool b => some b
  | _ => none

/-- A list, each item read by `decode`. -/
def list? (decode : Json → Option α) : Json → Option (List α)
  | .array items => items.mapM decode
  | _ => none

/-- A natural number below `bound`. -/
def naturalBelow? (bound : Nat) : Json → Option Nat
  | .number n => do
    let k ← n.natural?
    if k < bound then return k else none
  | _ => none

/-- One of several fixed words. -/
def word? (words : List (String × α)) : Json → Option α
  | .string s => words.lookup s
  | _ => none

/-! ### Nesting -/

/-- One level further in, if there is room for one. -/
def enter (room : Nat) (decode : Nat → Option α) : Option α :=
  match room with
  | 0 => none
  | room + 1 => decode room

/-- A list inside a document that may be nested `room` deep. -/
def listWithin (decode : Nat → Json → Option α) (room : Nat) (v : Json) : Option (List α) :=
  enter room fun room => list? (decode room) v

/-- A structure inside a document that may be nested `room` deep. -/
def structureWithin (decode : Nat → Fields → Option α) (room : Nat) (v : Json) : Option α :=
  enter room fun room => do decode room (← fields? v)

end DateFields.Json
