import DateFields.Config.Basic
import DateFields.Text.Word

/-!
# What is wrong with a configuration

Four settings must not be blank, and two of them and the stem of the binding are written into
programs as plain names, so they have to be identifiers.

* `Config.Defect` — a setting that cannot be used, and why;
* `Config.defect?` — the first defect of a configuration; blank settings come before those that are
  no identifiers.
-/

namespace DateFields.Config

/-- A setting that has to have a certain form. -/
inductive Setting where
  /-- The name of the marker. -/
  | markerFunction
  /-- The support module. -/
  | supportModule
  /-- The function of the support module. -/
  | supportFunction
  /-- The spelling of the type of dates. -/
  | timestamp
  /-- The stem of the binding. -/
  | bindingStem
  deriving DecidableEq, Repr

/-- The key that a setting is written under. -/
def Setting.key : Setting → String
  | .markerFunction => "marker.function"
  | .supportModule => "runtime.module"
  | .supportFunction => "runtime.function"
  | .timestamp => "types.timestamp"
  | .bindingStem => "runtime.binding_prefix"

/-- The value of a setting. -/
def value (c : Config) : Setting → String
  | .markerFunction => c.marker.function
  | .supportModule => c.support.module
  | .supportFunction => c.support.function
  | .timestamp => c.timestamp
  | .bindingStem => c.support.stem

/-- Why a configuration cannot be used. -/
inductive Defect where
  /-- There is nothing but white space in a setting. -/
  | blank (s : Setting)
  /-- The value of a setting is no identifier. -/
  | notIdentifier (s : Setting) (value : String)
  deriving DecidableEq, Repr

/-- The wording of a defect. -/
def Defect.message : Defect → String
  | .blank s => s.key ++ " cannot be empty"
  | .notIdentifier s v => s.key ++ " '" ++ v ++ "' is not a valid identifier"

/-- The settings that must not be blank. -/
def Setting.filled : List Setting := [.markerFunction, .supportModule, .supportFunction, .timestamp]

/-- The settings that have to be identifiers. -/
def Setting.names : List Setting := [.bindingStem, .supportFunction]

/-- The first defect of a configuration. -/
def defect? (c : Config) : Option Defect :=
  (Setting.filled.find? fun s => Text.isBlank (c.value s)).map .blank <|>
    (Setting.names.find? fun s => !Text.isIdentifier (c.value s)).map fun s =>
      .notIdentifier s (c.value s)

end DateFields.Config
