import DateFields.Path.Place
import DateFields.TypeExpr.Basic
import DateFields.Node.Basic

/-!
# The type table

What is known of the types of a program.  A type is a number: its position in the table.  Entries
are only appended; a declaration of a name that is already declared extends its entry.

* `TypeTable` — the entries, and the declarations that calls are bound to;
* `TypeTable.new` — the primitive types and `Date`;
* `TypeTable.lookup?` — the type of a name: the class or interface declared under it, or else the
  primitive type so called;
* `TypeTable.declare`, `TypeTable.bind` — a declaration and a call binding added.
-/

namespace DateFields

/-- A type: its position in the table, as a number without bound.  A number kept in 32 bits is this
one as long as the table has at most `2 ^ 32` entries, and past that it starts again at 0. -/
abbrev TypeId := Nat

/-- What a declaration of a structured type declares. -/
inductive TypeDeclaration.Kind where
  /-- An interface. -/
  | ofInterface
  /-- A class. -/
  | ofClass
  deriving DecidableEq, Repr

/-- The declaration of a class or an interface. -/
structure TypeDeclaration where
  /-- The declared name. -/
  name : String
  /-- What is declared. -/
  kind : TypeDeclaration.Kind
  /-- The names of the types whose properties are inherited. -/
  bases : List String
  /-- The properties declared here. -/
  properties : List Property
  deriving DecidableEq

/-- What a function declaration is. -/
inductive Declaration.Kind where
  /-- A function. -/
  | function
  /-- A method. -/
  | method
  /-- A signature that stands only in a documentation comment. -/
  | documented
  deriving DecidableEq, Repr

/-- The declaration that a call resolves to. -/
structure Declaration where
  /-- What is declared. -/
  kind : Declaration.Kind
  /-- The file of the declaration. -/
  file : Path
  /-- The declared name, if there is one. -/
  name : Option String
  deriving DecidableEq, Repr

/-- Ties the calls in a file that carry a number, or that have a callee text, to a declaration. -/
structure CallBinding where
  /-- The file of the calls. -/
  file : Path
  /-- The number of the call. -/
  call : Option CallId
  /-- The text of the callee, for calls without a number. -/
  callee : Option String
  /-- What they resolve to. -/
  declaration : Declaration
  deriving DecidableEq, Repr

/-- What a call is found by. -/
inductive CallKey where
  /-- The number the host gave it. -/
  | number (id : CallId)
  /-- The text of its callee. -/
  | callee (text : String)
  deriving DecidableEq, Repr

/-- What a binding is stored under: the number if it has one, or else the text. -/
def CallBinding.key? (b : CallBinding) : Option CallKey :=
  (b.call.map .number) <|> (b.callee.map .callee)

/-- A type of the table. -/
inductive TypeTable.Entry where
  /-- A type without structure. -/
  | primitive (name : String)
  /-- A class or an interface. -/
  | object (declaration : TypeDeclaration)
  /-- An inline object type. -/
  | literal (members : List Property)
  /-- The arrays of a type. -/
  | array (element : TypeId)
  /-- A union. -/
  | union (members : List TypeId)
  /-- An intersection. -/
  | intersection (members : List TypeId)
  deriving DecidableEq

/-- Everything known of a program's types. -/
structure TypeTable where
  /-- The types, each at its own number. -/
  entries : List TypeTable.Entry
  /-- Bound calls by file and key, the latest first. -/
  bindings : List ((Place × CallKey) × Declaration)
  deriving DecidableEq

namespace TypeTable

/-! ### Entries -/

/-- The class or interface of a name. -/
def Entry.isObjectNamed (name : String) : Entry → Bool
  | .object d => d.name == name
  | _ => false

/-- The primitive type of a name. -/
def Entry.isPrimitiveNamed (name : String) : Entry → Bool
  | .primitive n => n == name
  | _ => false

/-- A class or interface. -/
def Entry.isObject : Entry → Bool
  | .object _ => true
  | _ => false

variable (t : TypeTable)

/-- The entry of a type. -/
def entryAt? (id : TypeId) : Option Entry := t.entries[id]?

/-- The type of a name. -/
def lookup? (name : String) : Option TypeId :=
  t.entries.findIdx? (Entry.isObjectNamed name) <|>
    t.entries.findIdx? (Entry.isPrimitiveNamed name)

/-- The type is a class or an interface. -/
def isStructured (id : TypeId) : Bool := (t.entryAt? id).any Entry.isObject

/-! ### Declarations -/

/-- An entry with more bases and properties, if it is a class or an interface. -/
def Entry.extend (d : TypeDeclaration) : Entry → Entry
  | .object e => .object { e with
      bases := e.bases ++ d.bases, properties := e.properties ++ d.properties }
  | e => e

/-- The table with a class or an interface declared, and its type. -/
def declare (d : TypeDeclaration) : TypeId × TypeTable :=
  match t.entries.findIdx? (Entry.isObjectNamed d.name) with
  | some id => (id, { t with entries := t.entries.modify id (Entry.extend d) })
  | none => (t.entries.length, { t with entries := t.entries ++ [.object d] })

/-- The names of the types without structure. -/
def primitiveNames : List String :=
  ["string", "number", "boolean", "bigint", "symbol", "object", "null", "undefined", "void", "any",
    "unknown", "never"]

/-- The table every program starts from. -/
def new : TypeTable :=
  ((⟨primitiveNames.map .primitive, []⟩ : TypeTable).declare ⟨"Date", .ofInterface, [], []⟩).2

/-! ### Calls -/

/-- The table with a call bound.  A binding without a number and a text binds nothing. -/
def bind (b : CallBinding) : TypeTable :=
  match b.key? with
  | none => t
  | some key => { t with bindings := ((b.file.place, key), b.declaration) :: t.bindings }

/-- What a call is found by: its number, or, without one, the dotted text of its callee. -/
def callKey? (id : CallId) (callee : Node) : Option CallKey :=
  if id = .synthetic then callee.dottedName?.map .callee else some (.number id)

/-- The declaration that a call in a file resolves to. -/
def declarationOf? (file : Path) (id : CallId) (callee : Node) : Option Declaration := do
  t.bindings.lookup (file.place, ← callKey? id callee)

end TypeTable

end DateFields
