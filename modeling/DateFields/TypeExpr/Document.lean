import DateFields.Json.Fields
import DateFields.TypeExpr.Basic

/-!
# Type expressions as documents

The JSON form of type expressions and of their members: an object whose field `kind` names the
form of the type.

* `TypeExpr.toJson` — the document of a type expression, every field written;
* `TypeExpr.ofJson?` — the type expression a document describes.
-/

namespace DateFields

open Json

/-- A member read with a reader for its type. -/
def PropertyOf.decode {α : Type} (type? : Json → Option α) (v : Json) : Option (PropertyOf α) := do
  let fields ← v.fields?
  return ⟨← required fields "name" string?, ← optional fields "type" type?⟩

namespace TypeExpr

mutual

/-- The document of a type expression. -/
def toJson : TypeExpr → Json
  | .array e => .object [("kind", .string "array"), ("element", e.toJson)]
  | .reference name args =>
    .object [("kind", .string "reference"), ("name", .string name), ("args", .array (toJsonAll args))]
  | .union members =>
    .object [("kind", .string "union"), ("members", .array (toJsonAll members))]
  | .intersection members =>
    .object [("kind", .string "intersection"), ("members", .array (toJsonAll members))]
  | .literal members =>
    .object [("kind", .string "type_literal"), ("members", .array (toJsonMembers members))]
  | .parenthesized inner =>
    .object [("kind", .string "parenthesized"), ("inner", inner.toJson)]
  | .keyword name => .object [("kind", .string "keyword"), ("name", .string name)]
  | .other t => .object [("kind", .string "opaque"), ("text", .string t)]

/-- The documents of several type expressions. -/
def toJsonAll : List TypeExpr → List Json
  | [] => []
  | t :: ts => t.toJson :: toJsonAll ts

/-- The document of a member. -/
def toJsonMember : Property → Json
  | ⟨name, none⟩ => .object [("name", .string name), ("type", .null)]
  | ⟨name, some t⟩ => .object [("name", .string name), ("type", t.toJson)]

/-- The documents of several members. -/
def toJsonMembers : List Property → List Json
  | [] => []
  | m :: ms => toJsonMember m :: toJsonMembers ms

end

/-- The type expression a document describes, if it is nested at most so many levels deep. -/
def decode : Nat → Json → Option TypeExpr
  | 0, _ => none
  | depth + 1, v => do
    let fields ← v.fields?
    match ← required fields "kind" string? with
    | "array" => return .array (← required fields "element" (decode depth))
    | "reference" =>
      return .reference (← required fields "name" string?)
        (← defaulted fields "args" [] (list? (decode depth)))
    | "union" => return .union (← required fields "members" (list? (decode depth)))
    | "intersection" => return .intersection (← required fields "members" (list? (decode depth)))
    | "type_literal" =>
      return .literal (← defaulted fields "members" [] (list? (PropertyOf.decode (decode depth))))
    | "parenthesized" => return .parenthesized (← required fields "inner" (decode depth))
    | "keyword" => return .keyword (← required fields "name" string?)
    | "opaque" => return .other (← required fields "text" string?)
    | _ => none

/-- The type expression a document describes, with `room` levels of nesting left for it. -/
def ofJson? (room : Nat) (v : Json) : Option TypeExpr :=
  if v.fits room then decode room v else none

end TypeExpr

namespace PropertyOf

/-- The document of a member. -/
def toJson (p : Property) : Json := TypeExpr.toJsonMember p

/-- The member a document describes.  Only the type is held to the limits; fields that no member
has are skipped. -/
def ofJson? (room : Nat) (v : Json) : Option Property :=
  enter room fun room => PropertyOf.decode (TypeExpr.ofJson? room) v

end PropertyOf

end DateFields
