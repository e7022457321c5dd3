import DateFields.Node.Document
import DateFields.TypeTable.Basic

/-!
# Type tables as documents

The JSON form of declarations, of call bindings and of whole tables.

* `TypeDeclaration.ofJson?`, `CallBinding.ofJson?` — one declaration and one binding;
* `TypeTable.ofJson?` — a table with all declarations and bindings of a document, in their order;
* `TypeTable.read?` — the same from the text of the document.
-/

namespace DateFields

open Json

namespace TypeDeclaration

/-- Interface or class. -/
def Kind.ofJson? : Json → Option Kind := word? [("interface", .ofInterface), ("class", .ofClass)]

/-- The declaration a document describes. -/
def ofJson? (room : Nat) : Json → Option TypeDeclaration :=
  structureWithin (fun room fields => do
    return ⟨← required fields "name" string?,
      ← defaulted fields "kind" .ofInterface Kind.ofJson?,
      ← defaulted fields "extends" [] (list? string?),
      ← defaulted fields "properties" [] (listWithin PropertyOf.ofJson? room)⟩) room

end TypeDeclaration

namespace Declaration

/-- The names of the kinds of function declarations. -/
def Kind.words : List (String × Kind) :=
  [("function", .function), ("method", .method), ("js_doc_signature", .documented)]

/-- The document of a kind. -/
def Kind.toJson : Kind → Json
  | .function => .string "function"
  | .method => .string "method"
  | .documented => .string "js_doc_signature"

/-- The document of a function declaration. -/
def toJson (d : Declaration) : Json :=
  .object [("kind", d.kind.toJson), ("source_file", .string d.file.text),
    ("name", .ofOption .string d.name)]

/-- The function declaration a document describes. -/
def ofJson? (v : Json) : Option Declaration := do
  let fields ← v.fields?
  return ⟨← defaulted fields "kind" .function (word? Kind.words),
    ⟨← required fields "source_file" string?⟩, ← optional fields "name" string?⟩

end Declaration

namespace CallBinding

/-- The call binding a document describes. -/
def ofJson? (v : Json) : Option CallBinding := do
  let fields ← v.fields?
  return ⟨⟨← required fields "file" string?⟩, ← optional fields "call" CallId.ofJson?,
    ← optional fields "callee" string?, ← required fields "declaration" Declaration.ofJson?⟩

end CallBinding

namespace TypeTable

/-- A table with declarations and bindings entered in order. -/
def ofDeclarations (types : List TypeDeclaration) (calls : List CallBinding) : TypeTable :=
  calls.foldl bind (types.foldl (fun t d => (t.declare d).2) new)

/-- The table a document describes. -/
def ofJson? (room : Nat) : Json → Option TypeTable :=
  structureWithin (fun room fields => do
    return ofDeclarations (← defaulted fields "types" [] (listWithin TypeDeclaration.ofJson? room))
      (← defaulted fields "calls" [] (list? CallBinding.ofJson?))) room

/-- The table that the text of a document describes. -/
def read? (text : String) : Option TypeTable := do ofJson? nestingLimit (← Json.read? text)

end TypeTable

end DateFields
