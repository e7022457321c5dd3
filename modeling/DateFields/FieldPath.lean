import DateFields.Node.Basic
import DateFields.Text.Quoted

/-!
# Field paths

A field path names the fields to follow from a value down to one date inside it.

* `FieldPath.text`, `FieldPaths.text` — one path and a list of paths, written as lists of strings;
* `FieldPath.literal`, `FieldPaths.literal` — the same as expressions of the program.
-/

namespace DateFields

/-- The names of the fields to follow, outermost first. -/
abbrev FieldPath := List String

/-- The field paths of one type, in the order in which its fields are listed. -/
abbrev FieldPaths := List FieldPath

/-- Texts as a list between brackets. -/
def bracketed (texts : List String) : String := "[" ++ ", ".intercalate texts ++ "]"

/-- A path as a list of strings. -/
def FieldPath.text (p : FieldPath) : String := bracketed (p.map Text.quote)

/-- A path as an array expression. -/
def FieldPath.literal (p : FieldPath) : Node := .array (p.map .string)

/-- A list of paths as a list of lists of strings. -/
def FieldPaths.text (ps : FieldPaths) : String := bracketed (ps.map FieldPath.text)

/-- A list of paths as an array expression. -/
def FieldPaths.literal (ps : FieldPaths) : Node := .array (ps.map FieldPath.literal)

end DateFields
