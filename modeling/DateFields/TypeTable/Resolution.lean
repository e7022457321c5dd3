import DateFields.Distinct
import DateFields.TypeTable.Basic

/-!
# Resolving type expressions

A type expression resolves to a type of the table.  The types of arrays, unions, intersections and
inline object types are entered when they are first met, and found again ever after.

* `TypeTable.intern` — the type of an entry, entered if it is new;
* `TypeTable.resolve` — the type of an expression, if every name in it is known;
* `TypeTable.nonNullable` — a type with `null` and `undefined` taken out;
* `TypeTable.typeText` — the spelling of a type.
-/

namespace DateFields.TypeTable

/-- A computation that may enter new types into the table. -/
abbrev Entering := StateM TypeTable

/-- A computation that may also come to nothing; what it has entered stays in the table. -/
abbrev Resolving := OptionT Entering

/-- The type of an entry.  A new entry goes to the end of the table. -/
def intern (e : Entry) : Entering TypeId := fun t =>
  match t.entries.findIdx? (· == e) with
  | some id => (id, t)
  | none => (t.entries.length, { t with entries := t.entries ++ [e] })

/-- The members of a union; any other type is its only member. -/
def unionMembers (t : TypeTable) (id : TypeId) : List TypeId :=
  match t.entryAt? id with
  | some (.union members) => members
  | _ => [id]

/-- The members of an intersection; any other type is its only member. -/
def intersectionMembers (t : TypeTable) (id : TypeId) : List TypeId :=
  match t.entryAt? id with
  | some (.intersection members) => members
  | _ => [id]

/-- The type itself when there is one, and an entry for the list otherwise. -/
def combine (entry : List TypeId → Entry) : List TypeId → Entering TypeId
  | [id] => return id
  | ids => intern (entry ids)

/-- The union of types: the members of unions among them count one by one, and each counts once. -/
def unionOf (ids : List TypeId) : Entering TypeId := do
  combine .union (distinctBy id (ids.flatMap (unionMembers (← get))))

/-- The intersection of types: the members of intersections among them count one by one, and each
counts once. -/
def intersectionOf (ids : List TypeId) : Entering TypeId := do
  combine .intersection (distinctBy id (ids.flatMap (intersectionMembers (← get))))

/-- The type of a name. -/
def resolveName (name : String) : Resolving TypeId := do
  OptionT.mk (return (← get).lookup? name)

mutual

/-- The type of an expression. -/
def resolve : TypeExpr → Resolving TypeId
  | .keyword name => resolveName name
  | .reference name [e] =>
    if TypeExpr.isArrayName name then do intern (.array (← resolve e)) else resolveName name
  | .reference name _ => resolveName name
  | .array e => do intern (.array (← resolve e))
  | .union members => do unionOf (← resolveAll members)
  | .intersection members => do intersectionOf (← resolveAll members)
  | .literal members => intern (.literal members)
  | .parenthesized inner => resolve inner
  | .other _ => failure

/-- The types of several expressions, up to the first that has none. -/
def resolveAll : List TypeExpr → Resolving (List TypeId)
  | [] => return []
  | e :: es => return (← resolve e) :: (← resolveAll es)

end

/-! ### Null -/

/-- The types `null` and `undefined`. -/
def isNullish (t : TypeTable) (id : TypeId) : Bool :=
  match t.entryAt? id with
  | some (.primitive name) => name == "null" || name == "undefined"
  | _ => false

/-- The type named `never`. -/
def never (t : TypeTable) : TypeId := (t.lookup? "never").getD 0

/-- A type with `null` and `undefined` taken out; when nothing is left, `never`. -/
def nonNullable (id : TypeId) : Entering TypeId := do
  let t ← get
  match t.entryAt? id with
  | some (.union members) =>
    match members.filter (!t.isNullish ·) with
    | [] => return t.never
    | kept => unionOf kept
  | _ => return if t.isNullish id then t.never else id

/-! ### Spelling -/

/-- The type is a union. -/
def isUnion (t : TypeTable) (id : TypeId) : Bool :=
  match t.entryAt? id with
  | some (.union _) => true
  | _ => false

/-- The type is an intersection. -/
def isIntersection (t : TypeTable) (id : TypeId) : Bool :=
  match t.entryAt? id with
  | some (.intersection _) => true
  | _ => false

/-- A text between parentheses, where they are needed. -/
def grouped (needed : Bool) (s : String) : String := if needed then "(" ++ s ++ ")" else s

/-- The spelling of a type, its parts looked into for so many levels. -/
def textWithin (t : TypeTable) : Nat → TypeId → String
  | 0, _ => "unknown"
  | levels + 1, id =>
    match t.entryAt? id with
    | none => "unknown"
    | some (.primitive name) => name
    | some (.object d) => d.name
    | some (.literal members) => (TypeExpr.literal members).text
    | some (.array e) =>
      grouped (t.isUnion e || t.isIntersection e) (t.textWithin levels e) ++ "[]"
    | some (.union members) => " | ".intercalate (members.map (t.textWithin levels))
    | some (.intersection members) =>
      " & ".intercalate (members.map fun m => grouped (t.isUnion m) (t.textWithin levels m))

/-- The spelling of a type.  Its parts have smaller numbers, so the levels do not run out. -/
def typeText (t : TypeTable) (id : TypeId) : String := t.textWithin (id + 1) id

end DateFields.TypeTable
