import DateFields.Distinct
import DateFields.TypeTable.Basic

/-!
# Properties of a type

A type has the properties it declares, and those of the types it is made from: the bases of a class
or an interface, by name, and the members of an intersection.

* `TypeTable.origins` — the types a type takes properties from, itself first, each once, in the
  order of a depth-first walk;
* `TypeTable.properties` — the properties of all of them, the first of each name.
-/

namespace DateFields.TypeTable

variable (t : TypeTable)

/-- The properties that the entry of a type itself lists. -/
def ownProperties (id : TypeId) : List Property :=
  match t.entryAt? id with
  | some (.object d) => d.properties
  | some (.literal members) => members
  | _ => []

/-- The types that a type directly takes properties from.  A base whose name is not known adds
nothing. -/
def parents (id : TypeId) : List TypeId :=
  match t.entryAt? id with
  | some (.object d) => d.bases.filterMap t.lookup?
  | some (.intersection members) => members
  | _ => []

/-- The types met so far, and those first met from `id` on, at most so many steps away from it. -/
def originsWithin : Nat → List TypeId → TypeId → List TypeId
  | 0, seen, _ => seen
  | steps + 1, seen, id =>
    if id ∈ seen then seen else (t.parents id).foldl (originsWithin steps) (seen ++ [id])

/-- The types that a type takes properties from.  A walk that never meets a type twice is no longer
than the table. -/
def origins (id : TypeId) : List TypeId := t.originsWithin (t.entries.length + 1) [] id

/-- The properties of a type.  Of several with one name the first counts. -/
def properties (id : TypeId) : List Property :=
  distinctBy PropertyOf.name ((t.origins id).flatMap t.ownProperties)

end DateFields.TypeTable
