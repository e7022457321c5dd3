import DateFields.Json.Basic
import DateFields.Toml.Table

/-!
# TOML as JSON

* `Toml.Value.toJson` — the data of a value without its notation, so that both kinds of documents
  are decoded alike.

Of a number with a fraction only the fact that it is there has been kept, so it stands for nothing.
A date or a time is a structure of a kind of its own, without any field that others have.
-/

namespace DateFields.Toml

/-- An integer as a JSON number. -/
def integerToJson (n : Int) : Json := .number ⟨n < 0, n.natAbs.repr.toList, none, none⟩

mutual

/-- The data of a value. -/
def Value.toJson : Value → Json
  | .string s => .string s
  | .integer n => integerToJson n
  | .float => .null
  | .boolean b => .bool b
  | .moment => .object []
  | .array items => .array (itemsToJson items)
  | .table _ _ fields => .object (fieldsToJson fields)
  | .tables elements => .array (elementsToJson elements)

/-- The data of the items of a list. -/
def itemsToJson : List Value → List Json
  | [] => []
  | v :: vs => v.toJson :: itemsToJson vs

/-- The data of the values in a table. -/
def fieldsToJson : List (String × Value) → List (String × Json)
  | [] => []
  | (k, v) :: rest => (k, v.toJson) :: fieldsToJson rest

/-- The data of the tables of a list. -/
def elementsToJson : List (List (String × Value)) → List Json
  | [] => []
  | fields :: rest => .object (fieldsToJson fields) :: elementsToJson rest

end

end DateFields.Toml
