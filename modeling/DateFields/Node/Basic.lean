import DateFields.Path.Basic
import DateFields.TypeExpr.Basic

/-!
# Nodes

The tree of a source unit: statements, class members and expressions of the program, as far as
they have a form of their own.

* `Node` — one statement or expression with its parts;
* `SourceUnit` — a file of statements;
* `CallId` — the number the host gives a call, by which the declaration it resolves to is found.

A construct without a form of its own is a `Node.fragment`, pieces of raw text and nodes in the
order they are printed, or, when nothing inside is of interest, a `Node.verbatim`.
-/

namespace DateFields

/-- The host's number of a call expression. -/
structure CallId where
  /-- The number. -/
  value : UInt32
  deriving DecidableEq, Repr

/-- The number of every call that the host has not numbered. -/
def CallId.synthetic : CallId := ⟨0xFFFFFFFF⟩

/-- How a variable is declared. -/
inductive VarKind where
  /-- `var` -/
  | functionScoped
  /-- `let` -/
  | blockScoped
  /-- `const` -/
  | constant
  deriving DecidableEq, Repr, Inhabited

/-- The keyword of a declaration. -/
def VarKind.keyword : VarKind → String
  | .functionScoped => "var"
  | .blockScoped => "let"
  | .constant => "const"

/-- A parameter of a function. -/
structure Parameter where
  /-- The text of the parameter, a plain name or a pattern. -/
  name : String
  /-- Its declared type. -/
  type : Option TypeExpr
  deriving DecidableEq

/-- What a function is, apart from its body. -/
structure FunctionHead where
  /-- The name. -/
  name : String
  /-- Declared `async`. -/
  isAsync : Bool
  /-- The parameters. -/
  params : List Parameter
  /-- The declared result type. -/
  returnType : Option TypeExpr
  deriving DecidableEq

/-- One name of an import between braces. -/
structure ImportName where
  /-- The exported name. -/
  name : String
  /-- The name behind `as`. -/
  asName : Option String
  deriving DecidableEq

/-- The name under which the importing file knows it. -/
def ImportName.localName (n : ImportName) : String := n.asName.getD n.name

/-- What an import binds. -/
structure ImportClause where
  /-- The default import. -/
  defaultName : Option String
  /-- The name behind `* as`. -/
  namespaceName : Option String
  /-- The names between braces. -/
  named : List ImportName
  deriving DecidableEq

/-- Every name a clause binds in the importing file. -/
def ImportClause.localNames (c : ImportClause) : List String :=
  c.defaultName.toList ++ c.namespaceName.toList ++ c.named.map ImportName.localName

/-- One entry of a variable declaration. -/
structure Declarator (α : Type) where
  /-- The text of the declared name or pattern. -/
  name : String
  /-- The declared type. -/
  type : Option TypeExpr
  /-- The initial value. -/
  init : Option α

/-- A statement, a class member or an expression. -/
inductive Node where
  /-- `import … from "module";`, or `import "module";` without a clause. -/
  | importDecl (clause : Option ImportClause) (specifier : String)
  /-- `var a: T = e, b;` -/
  | varDecl (kind : VarKind) (entries : List (Declarator Node))
  /-- `e;` -/
  | expression (e : Node)
  /-- `return e;` -/
  | returnStmt (value : Option Node)
  /-- `function f(…) { … }` -/
  | function (head : FunctionHead) (body : List Node)
  /-- `{ … }` -/
  | block (statements : List Node)
  /-- `export d` -/
  | exportDecl (declaration : Node)
  /-- `export default e;` -/
  | exportDefault (e : Node)
  /-- `if (c) t else e` -/
  | ifElse (condition thenBranch : Node) (elseBranch : Option Node)
  /-- `for (init; c; u) b` -/
  | forLoop (init condition update : Option Node) (body : Node)
  /-- `for (const x of e) b` -/
  | forOf (kind : VarKind) (binding : String) (iterable body : Node)
  /-- `while (c) b` -/
  | whileLoop (condition body : Node)
  /-- `try { … } catch (p) { … } finally { … }` -/
  | tryCatch (body : List Node) (param : Option String) (handler finalizer : Option (List Node))
  /-- `throw e;` -/
  | throwStmt (value : Node)
  /-- `class C extends B { … }` -/
  | classDecl (name : Option String) (base : Option Node) (members : List Node)
  /-- A method of a class. -/
  | method (isStatic : Bool) (head : FunctionHead) (body : List Node)
  /-- A field of a class. -/
  | classField (name : String) (isStatic : Bool) (type : Option TypeExpr) (init : Option Node)
  /-- A comment, without its comment marks. -/
  | comment (text : String)
  /-- Raw text, printed as it is. -/
  | verbatim (text : String)
  /-- A construct without a form of its own: its parts in the order they are printed. -/
  | fragment (parts : List Node)
  /-- A plain name. -/
  | identifier (name : String)
  /-- A string literal. -/
  | string (value : String)
  /-- A number, kept as it is written. -/
  | number (value : String)
  /-- `[a, b]` -/
  | array (elements : List Node)
  /-- `{ k: v }` -/
  | object (entries : List (String × Node))
  /-- `e.name` -/
  | propertyAccess (object : Node) (name : String)
  /-- `e[i]` -/
  | elementAccess (object index : Node)
  /-- `f<T>(a, b)` -/
  | call (id : CallId) (callee : Node) (typeArgs : List TypeExpr) (args : List Node)
  /-- `new C(a, b)` -/
  | newObject (callee : Node) (args : List Node)
  /-- `await e` -/
  | await (e : Node)
  /-- `c ? t : f` -/
  | conditional (condition whenTrue whenFalse : Node)
  /-- `a + b`, assignments included. -/
  | binary (operator : String) (left right : Node)
  /-- `!a`, `typeof a` -/
  | unary (operator : String) (operand : Node)
  /-- `async (p) => b` -/
  | arrow (isAsync : Bool) (params : List Parameter) (body : Node)
  deriving Inhabited

/-- A file of the program. -/
structure SourceUnit where
  /-- The path of the file, as the host spells it. -/
  path : Path
  /-- Its statements. -/
  statements : List Node

namespace Node

/-- A call built by the program itself: no number and no type arguments. -/
def plainCall (callee : Node) (args : List Node) : Node := .call .synthetic callee [] args

/-- The dotted text of a plain name or of a chain of property accesses on one. -/
def dottedName? : Node → Option String
  | .identifier name => some name
  | .propertyAccess e name => e.dottedName?.map (· ++ "." ++ name)
  | _ => none

/-- The names that an import binds; other nodes, and imports without a clause, bind none. -/
def importedNames : Node → List String
  | .importDecl (some clause) _ => clause.localNames
  | _ => []

end Node

end DateFields
