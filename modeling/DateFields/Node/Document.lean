import DateFields.Node.Basic
import DateFields.TypeExpr.Document

/-!
# Trees as documents

The JSON form of nodes and of source units: an object whose field `kind` names the form of the
node.  A list of the kind and the fields, and a number in the place of the kind, are left out.

* `Node.toJson`, `SourceUnit.toJson` — the document of a tree, every field written;
* `Node.ofJson?`, `SourceUnit.ofJson?` — the tree a document describes;
* `Node.callOfJson?` — the call a document describes, where only a call can stand.
-/

namespace DateFields

open Json

/-- The document of a node: its kind and its fields. -/
def Json.kinded (kind : String) (fields : Fields) : Json :=
  .object (("kind", .string kind) :: fields)

/-! ### Parts of nodes -/

namespace VarKind

/-- The document of a declaration keyword. -/
def toJson (k : VarKind) : Json := .string k.keyword

/-- The keyword a document names. -/
def ofJson? : Json → Option VarKind :=
  word? [("var", .functionScoped), ("let", .blockScoped), ("const", .constant)]

end VarKind

namespace CallId

/-- The document of a call number. -/
def toJson (id : CallId) : Json := .ofNat id.value.toNat

/-- The call number a document names. -/
def ofJson? (v : Json) : Option CallId :=
  (naturalBelow? UInt32.size v).map fun n => ⟨UInt32.ofNat n⟩

end CallId

/-- The document of a type that may be missing. -/
def TypeExpr.toJsonOption (t : Option TypeExpr) : Json := .ofOption TypeExpr.toJson t

namespace Parameter

/-- The document of a parameter. -/
def toJson (p : Parameter) : Json :=
  .object [("name", .string p.name), ("type", TypeExpr.toJsonOption p.type)]

/-- The parameter a document describes. -/
def decode (depth : Nat) (v : Json) : Option Parameter := do
  let fields ← v.fields?
  return ⟨← required fields "name" string?, ← optional fields "type" (TypeExpr.decode depth)⟩

end Parameter

namespace FunctionHead

/-- The fields of a function apart from its body. -/
def toFields (h : FunctionHead) : Fields :=
  [("name", .string h.name), ("is_async", .bool h.isAsync),
    ("params", .array (h.params.map Parameter.toJson)),
    ("return_type", TypeExpr.toJsonOption h.returnType)]

/-- A function apart from its body. -/
def decode (depth : Nat) (fields : Fields) : Option FunctionHead := do
  return ⟨← required fields "name" string?, ← defaulted fields "is_async" false bool?,
    ← defaulted fields "params" [] (list? (Parameter.decode depth)),
    ← optional fields "return_type" (TypeExpr.decode depth)⟩

end FunctionHead

namespace ImportName

/-- The document of an imported name. -/
def toJson (n : ImportName) : Json :=
  .object [("name", .string n.name), ("alias", .ofOption .string n.asName)]

/-- The imported name a document describes. -/
def ofJson? (v : Json) : Option ImportName := do
  let fields ← v.fields?
  return ⟨← required fields "name" string?, ← optional fields "alias" string?⟩

end ImportName

namespace ImportClause

/-- The document of an import clause. -/
def toJson (c : ImportClause) : Json :=
  .object [("default", .ofOption .string c.defaultName),
    ("namespace", .ofOption .string c.namespaceName),
    ("named", .array (c.named.map ImportName.toJson))]

/-- The import clause a document describes. -/
def ofJson? (v : Json) : Option ImportClause := do
  let fields ← v.fields?
  return ⟨← optional fields "default" string?, ← optional fields "namespace" string?,
    ← defaulted fields "named" [] (list? ImportName.ofJson?)⟩

end ImportClause

namespace Node

/-! ### Writing -/

mutual

/-- The document of a node. -/
def toJson : Node → Json
  | .importDecl clause specifier =>
    kinded "import" [("clause", .ofOption ImportClause.toJson clause),
      ("module_specifier", .string specifier)]
  | .varDecl kind entries =>
    kinded "variable" [("var_kind", kind.toJson), ("declarations", .array (toJsonEntries entries))]
  | .expression e => kinded "expression" [("expression", e.toJson)]
  | .returnStmt value => kinded "return" [("value", toJsonOption value)]
  | .function head body =>
    kinded "function" (head.toFields ++ [("body", .array (toJsonAll body))])
  | .block statements => kinded "block" [("statements", .array (toJsonAll statements))]
  | .exportDecl declaration => kinded "export" [("declaration", declaration.toJson)]
  | .exportDefault e => kinded "export_default" [("expression", e.toJson)]
  | .ifElse condition thenBranch elseBranch =>
    kinded "if" [("condition", condition.toJson), ("then_branch", thenBranch.toJson),
      ("else_branch", toJsonOption elseBranch)]
  | .forLoop init condition update body =>
    kinded "for" [("init", toJsonOption init), ("condition", toJsonOption condition),
      ("update", toJsonOption update), ("body", body.toJson)]
  | .forOf kind binding iterable body =>
    kinded "for_of" [("var_kind", kind.toJson), ("binding", .string binding),
      ("iterable", iterable.toJson), ("body", body.toJson)]
  | .whileLoop condition body =>
    kinded "while" [("condition", condition.toJson), ("body", body.toJson)]
  | .tryCatch body param handler finalizer =>
    kinded "try" [("block", .array (toJsonAll body)), ("catch_param", .ofOption .string param),
      ("handler", toJsonAllOption handler), ("finalizer", toJsonAllOption finalizer)]
  | .throwStmt value => kinded "throw" [("value", value.toJson)]
  | .classDecl name base members =>
    kinded "class" [("name", .ofOption .string name), ("extends", toJsonOption base),
      ("members", .array (toJsonAll members))]
  | .method isStatic head body =>
    kinded "method" (("is_static", .bool isStatic) :: head.toFields ++
      [("body", .array (toJsonAll body))])
  | .classField name isStatic type init =>
    kinded "class_field" [("name", .string name), ("is_static", .bool isStatic),
      ("type", TypeExpr.toJsonOption type), ("initializer", toJsonOption init)]
  | .comment text => kinded "comment" [("text", .string text)]
  | .verbatim text => kinded "verbatim" [("text", .string text)]
  | .fragment parts => kinded "fragment" [("parts", .array (toJsonAll parts))]
  | .identifier name => kinded "identifier" [("name", .string name)]
  | .string value => kinded "string" [("value", .string value)]
  | .number value => kinded "number" [("value", .string value)]
  | .array elements => kinded "array" [("elements", .array (toJsonAll elements))]
  | .object entries => kinded "object" [("properties", .array (toJsonValues entries))]
  | .propertyAccess target name =>
    kinded "property_access" [("object", target.toJson), ("name", .string name)]
  | .elementAccess target index =>
    kinded "element_access" [("object", target.toJson), ("index", index.toJson)]
  | .call id callee typeArgs args =>
    kinded "call" [("id", id.toJson), ("callee", callee.toJson),
      ("type_arguments", .array (TypeExpr.toJsonAll typeArgs)),
      ("arguments", .array (toJsonAll args))]
  | .newObject callee args =>
    kinded "new" [("callee", callee.toJson), ("arguments", .array (toJsonAll args))]
  | .await e => kinded "await" [("expression", e.toJson)]
  | .conditional condition whenTrue whenFalse =>
    kinded "conditional" [("condition", condition.toJson), ("when_true", whenTrue.toJson),
      ("when_false", whenFalse.toJson)]
  | .binary operator left right =>
    kinded "binary" [("operator", .string operator), ("left", left.toJson),
      ("right", right.toJson)]
  | .unary operator operand =>
    kinded "unary" [("operator", .string operator), ("operand", operand.toJson)]
  | .arrow isAsync params body =>
    kinded "arrow" [("is_async", .bool isAsync), ("params", .array (params.map Parameter.toJson)),
      ("body", body.toJson)]

/-- The documents of several nodes. -/
def toJsonAll : List Node → List Json
  | [] => []
  | n :: ns => n.toJson :: toJsonAll ns

/-- The document of a node that may be missing. -/
def toJsonOption : Option Node → Json
  | none => .null
  | some n => n.toJson

/-- The document of a list that may be missing. -/
def toJsonAllOption : Option (List Node) → Json
  | none => .null
  | some ns => .array (toJsonAll ns)

/-- The document of one entry of a declaration. -/
def toJsonEntry : Declarator Node → Json
  | ⟨name, type, init⟩ =>
    .object [("name", .string name), ("type", TypeExpr.toJsonOption type),
      ("initializer", toJsonOption init)]

/-- The documents of the entries of a declaration. -/
def toJsonEntries : List (Declarator Node) → List Json
  | [] => []
  | e :: es => toJsonEntry e :: toJsonEntries es

/-- The document of one entry of an object. -/
def toJsonValue : String × Node → Json
  | (name, n) => .object [("name", .string name), ("value", n.toJson)]

/-- The documents of the entries of an object. -/
def toJsonValues : List (String × Node) → List Json
  | [] => []
  | e :: es => toJsonValue e :: toJsonValues es

end

/-! ### Reading -/

/-- One entry of a declaration, read with a reader for its parts. -/
def decodeEntry (depth : Nat) (node? : Json → Option Node) (v : Json) :
    Option (Declarator Node) := do
  let fields ← v.fields?
  return ⟨← required fields "name" string?, ← optional fields "type" (TypeExpr.decode depth),
    ← optional fields "initializer" node?⟩

/-- One entry of an object, read with a reader for its value. -/
def decodeValue (node? : Json → Option Node) (v : Json) : Option (String × Node) := do
  let fields ← v.fields?
  return (← required fields "name" string?, ← required fields "value" node?)

/-- The node of a kind with given fields, its children read by `node?`. -/
def decodeFields (depth : Nat) (node? : Json → Option Node) (fields : Fields) (kind : String) :
    Option Node :=
  let one (key : String) : Option Node := required fields key node?
  let opt (key : String) : Option (Option Node) := optional fields key node?
  let nodes (key : String) : Option (List Node) := required fields key (list? node?)
  let nodesOrNone (key : String) : Option (List Node) := defaulted fields key [] (list? node?)
  let text (key : String) : Option String := required fields key string?
  let flag (key : String) : Option Bool := defaulted fields key false bool?
  let varKind := defaulted fields "var_kind" VarKind.functionScoped VarKind.ofJson?
  match kind with
  | "import" => do
    return .importDecl (← optional fields "clause" ImportClause.ofJson?) (← text "module_specifier")
  | "variable" => do
    return .varDecl (← varKind)
      (← required fields "declarations" (list? (decodeEntry depth node?)))
  | "expression" => do return .expression (← one "expression")
  | "return" => do return .returnStmt (← opt "value")
  | "function" => do return .function (← FunctionHead.decode depth fields) (← nodesOrNone "body")
  | "block" => do return .block (← nodes "statements")
  | "export" => do return .exportDecl (← one "declaration")
  | "export_default" => do return .exportDefault (← one "expression")
  | "if" => do
    return .ifElse (← one "condition") (← one "then_branch") (← opt "else_branch")
  | "for" => do
    return .forLoop (← opt "init") (← opt "condition") (← opt "update") (← one "body")
  | "for_of" => do
    return .forOf (← varKind) (← text "binding") (← one "iterable") (← one "body")
  | "while" => do return .whileLoop (← one "condition") (← one "body")
  | "try" => do
    return .tryCatch (← nodes "block") (← optional fields "catch_param" string?)
      (← optional fields "handler" (list? node?)) (← optional fields "finalizer" (list? node?))
  | "throw" => do return .throwStmt (← one "value")
  | "class" => do
    return .classDecl (← optional fields "name" string?) (← opt "extends")
      (← nodesOrNone "members")
  | "method" => do
    return .method (← flag "is_static") (← FunctionHead.decode depth fields)
      (← nodesOrNone "body")
  | "class_field" => do
    return .classField (← text "name") (← flag "is_static")
      (← optional fields "type" (TypeExpr.decode depth)) (← opt "initializer")
  | "comment" => do return .comment (← text "text")
  | "verbatim" => do return .verbatim (← text "text")
  | "fragment" => do return .fragment (← nodes "parts")
  | "identifier" => do return .identifier (← text "name")
  | "string" => do return .string (← text "value")
  | "number" => do return .number (← text "value")
  | "array" => do return .array (← nodes "elements")
  | "object" => do
    return .object (← required fields "properties" (list? (decodeValue node?)))
  | "property_access" => do return .propertyAccess (← one "object") (← text "name")
  | "element_access" => do return .elementAccess (← one "object") (← one "index")
  | "call" => do
    return .call (← defaulted fields "id" .synthetic CallId.ofJson?) (← one "callee")
      (← defaulted fields "type_arguments" [] (list? (TypeExpr.decode depth)))
      (← nodesOrNone "arguments")
  | "new" => do return .newObject (← one "callee") (← nodesOrNone "arguments")
  | "await" => do return .await (← one "expression")
  | "conditional" => do
    return .conditional (← one "condition") (← one "when_true") (← one "when_false")
  | "binary" => do return .binary (← text "operator") (← one "left") (← one "right")
  | "unary" => do return .unary (← text "operator") (← one "operand")
  | "arrow" => do
    return .arrow (← flag "is_async")
      (← defaulted fields "params" [] (list? (Parameter.decode depth))) (← one "body")
  | _ => none

/-- The node a document describes, if it is nested at most so many levels deep. -/
def decode : Nat → Json → Option Node
  | 0, _ => none
  | depth + 1, v => do
    let fields ← v.fields?
    decodeFields depth (decode depth) fields (← required fields "kind" string?)

/-- The node a document describes, with `room` levels of nesting left for it. -/
def ofJson? (room : Nat) (v : Json) : Option Node :=
  if v.fits room then decode room v else none

/-- The call a document describes, whatever kind it names. -/
def callOfJson? (room : Nat) : Json → Option Node :=
  structureWithin (fun room fields => do
    return .call (← defaulted fields "id" .synthetic CallId.ofJson?)
      (← required fields "callee" (ofJson? room))
      (← defaulted fields "type_arguments" [] (listWithin TypeExpr.ofJson? room))
      (← defaulted fields "arguments" [] (listWithin ofJson? room))) room

end Node

namespace SourceUnit

/-- The document of a source unit. -/
def toJson (u : SourceUnit) : Json :=
  .object [("file_name", .string u.path.text), ("statements", .array (Node.toJsonAll u.statements))]

/-- The source unit a document describes.  Only the statements are held to the limits; fields that
no unit has are skipped. -/
def ofJson? (room : Nat) : Json → Option SourceUnit :=
  structureWithin (fun room fields => do
    return ⟨⟨← required fields "file_name" string?⟩,
      ← defaulted fields "statements" [] (listWithin Node.ofJson? room)⟩) room

end SourceUnit

end DateFields
