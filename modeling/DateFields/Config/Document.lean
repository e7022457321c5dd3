import DateFields.Config.Defect
import DateFields.Json.Fields
import DateFields.Toml.Document
import DateFields.Toml.Reader

/-!
# Configurations as documents

The JSON and the TOML form of a configuration.  Everything but the two files of the marker has a
standard value.

* `Config.toJson`, `Config.ofJson?` — the JSON form, taken as it is;
* `Config.ofToml` — the TOML form, with the paths of the marker seen from a directory, and checked.
-/

namespace DateFields

open Json

/-- The fields of a structure, which may also be written as the list of its values in the order of
its fields. -/
def Json.fieldsInOrder? (names : List String) : Json → Option Fields
  | .object fields => some fields
  | .array values => some (names.zip values)
  | _ => none

namespace Marker

/-- The document of a marker. -/
def toJson (m : Marker) : Json :=
  .object [("implementation", .string m.implementation.text),
    ("declaration", .string m.declaration.text), ("function", .string m.function)]

/-- The marker a document describes. -/
def ofJson? (v : Json) : Option Marker := do
  let fields ← v.fieldsInOrder? ["implementation", "declaration", "function"]
  return ⟨⟨← required fields "implementation" string?⟩, ⟨← required fields "declaration" string?⟩,
    ← defaulted fields "function" standardFunction string?⟩

end Marker

namespace Support

/-- The document of the support module. -/
def toJson (s : Support) : Json :=
  .object [("module", .string s.module), ("function", .string s.function),
    ("binding_prefix", .string s.stem)]

/-- The support module a document describes. -/
def ofJson? (v : Json) : Option Support := do
  let fields ← v.fieldsInOrder? ["module", "function", "binding_prefix"]
  return ⟨← defaulted fields "module" standard.module string?,
    ← defaulted fields "function" standard.function string?,
    ← defaulted fields "binding_prefix" standard.stem string?⟩

end Support

namespace Config

/-- The type of dates that a document names. -/
def timestampOfJson? (v : Json) : Option String := do
  defaulted (← v.fieldsInOrder? ["timestamp"]) "timestamp" standardTimestamp string?

/-- The document of a configuration. -/
def toJson (c : Config) : Json :=
  .object [("marker", c.marker.toJson), ("runtime", c.support.toJson),
    ("types", .object [("timestamp", .string c.timestamp)])]

/-- The configuration a document describes. -/
def ofJson? (v : Json) : Option Config := do
  let fields ← v.fieldsInOrder? ["marker", "runtime", "types"]
  return ⟨← required fields "marker" Marker.ofJson?,
    ← defaulted fields "runtime" .standard Support.ofJson?,
    ← defaulted fields "types" standardTimestamp timestampOfJson?⟩

/-- The configuration that the text of a TOML document describes. -/
def read? (text : String) : Option Config := do
  ofJson? (.object (Toml.fieldsToJson (← Toml.read? text)))

end Config

end DateFields
