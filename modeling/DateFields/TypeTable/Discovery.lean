import DateFields.FieldPath
import DateFields.TypeTable.Members
import DateFields.TypeTable.Resolution

/-!
# Finding the dates inside a type

The fields of a type are followed through classes and interfaces; a field whose type is spelled
like the timestamp type ends a path.

* `FieldType` — what there is to do about a field: nothing, end a path, or go on;
* `TypeTable.classify` — the field type of a declared type, array types and `null` left aside;
* `TypeTable.discover` — the paths from a type to all dates inside it.  A type that is met again on
  the way from the root is not entered again, so the walk ends on every table.
-/

namespace DateFields

/-- What the declared type of a field comes to. -/
inductive FieldType where
  /-- A type whose fields do not matter, told by its spelling. -/
  | leaf (name : String)
  /-- A class or an interface. -/
  | structured (id : TypeId)
  deriving DecidableEq, Repr

namespace TypeTable

/-- The field type of a declared type, if that resolves.  A type spelled like the timestamp type is
a leaf even when it has fields of its own. -/
def classify (timestamp : String) (declared : TypeExpr) : Resolving FieldType := do
  let id ← resolve declared.unwrapArrays
  let id ← nonNullable id
  let t ← get
  let name := t.typeText id
  return if name ≠ timestamp && t.isStructured id then .structured id else .leaf name

/-- The paths that one property contributes to those of the type it belongs to, at `path`; `inner`
finds the paths below a structured type. -/
def fieldPaths (timestamp : String) (inner : TypeId → FieldPath → Entering FieldPaths)
    (path : FieldPath) (p : Property) : Entering FieldPaths :=
  match p.type with
  | none => return []
  | some declared => do
    match ← (classify timestamp declared).run with
    | none => return []
    | some (.leaf name) => return if name = timestamp then [path ++ [p.name]] else []
    | some (.structured id) => inner id (path ++ [p.name])

/-- The paths below a type, followed for so many steps; the types on the way are not entered. -/
def walk (timestamp : String) : Nat → List TypeId → TypeId → FieldPath → Entering FieldPaths
  | 0, _, _, _ => return []
  | steps + 1, onWay, id, path => do
    if id ∈ onWay then return []
    else
      let found ← ((← get).properties id).mapM
        (fieldPaths timestamp (walk timestamp steps (id :: onWay)) path)
      return found.flatten

/-- The number of classes and interfaces. -/
def structuredCount (t : TypeTable) : Nat := t.entries.countP Entry.isObject

/-- The paths from a type to the dates inside it, each behind `path`.  Behind the root a way meets
every class and interface at most once, which bounds the steps. -/
def discover (timestamp : String) (id : TypeId) (path : FieldPath) : Entering FieldPaths := do
  walk timestamp ((← get).structuredCount + 1) [] id path

end TypeTable

end DateFields
