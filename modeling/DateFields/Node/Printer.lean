import DateFields.Node.Basic
import DateFields.Text.Quoted
import DateFields.Text.Word

/-!
# Printing

The program text of a tree.  Statements stand on lines of their own, indented by four blanks for
every block around them.

* `Node.text` — a node at a given depth of blocks: a statement with its terminator, an expression
  bare;
* `Node.line` — a node in statement position: an expression there ends in a semicolon;
* `SourceUnit.text` — a whole unit.

Operators, conditional expressions and arrow functions get parentheses wherever they stand as an
operand; nothing else does, except `await` and unary operators in front of a property access.
-/

namespace DateFields

namespace Node

/-! ### Pieces of text -/

/-- The blanks in front of a line. -/
def indent (depth : Nat) : String := String.ofList (List.replicate (4 * depth) ' ')

/-- Texts with a comma and a blank between them. -/
def commas (texts : List String) : String := ", ".intercalate texts

/-- A text between parentheses, where they are needed. -/
def parenIf (needed : Bool) (s : String) : String := if needed then "(" ++ s ++ ")" else s

/-- A text if it is wanted. -/
def textIf (wanted : Bool) (s : String) : String := if wanted then s else ""

/-- A colon and a type, if there is a type. -/
def typeText : Option TypeExpr → String
  | none => ""
  | some t => ": " ++ t.text

/-- Parameters between parentheses, and the result type. -/
def signatureText (params : List Parameter) (returnType : Option TypeExpr) : String :=
  "(" ++ commas (params.map fun p => p.name ++ typeText p.type) ++ ")" ++ typeText returnType

/-- The text of a function before its body. -/
def headText (head : FunctionHead) : String :=
  head.name ++ signatureText head.params head.returnType ++ " "

/-- One name of an import. -/
def importNameText (n : ImportName) : String :=
  match n.asName with
  | none => n.name
  | some a => n.name ++ " as " ++ a

/-- The names of an import between braces. -/
def namedImportsText : List ImportName → String
  | [] => "\x7b\x7d"
  | names => "\x7b " ++ commas (names.map importNameText) ++ " \x7d"

/-- What an import binds.  Braces stand there when they hold a name or nothing else is bound. -/
def clauseText (c : ImportClause) : String :=
  let outer := c.defaultName.toList ++ c.namespaceName.toList.map ("* as " ++ ·)
  if c.named.isEmpty && !outer.isEmpty then commas outer
  else commas (outer ++ [namedImportsText c.named])

/-- An import declaration. -/
def importText (clause : Option ImportClause) (specifier : String) : String :=
  match clause with
  | none => "import " ++ Text.quote specifier ++ ";"
  | some c => "import " ++ clauseText c ++ " from " ++ Text.quote specifier ++ ";"

/-- A comment: every line of its text behind comment marks. -/
def commentText (depth : Nat) (text : String) : String :=
  ("\n" ++ indent depth).intercalate
    ((Text.lines text.toList).map fun l => "// " ++ String.ofList l)

/-- The key of an object entry, quoted unless it is a plain name. -/
def keyText (name : String) : String := if Text.isIdentifier name then name else Text.quote name

/-- A prefix operator; a word is set off by a blank. -/
def operatorText (operator : String) : String :=
  operator ++ textIf (operator.toList.all Text.isAlphabetic) " "

/-- The statements of a block between braces, given the text of its lines. -/
def braces (depth : Nat) (isEmpty : Bool) (lines : String) : String :=
  if isEmpty then "\x7b\x7d" else "\x7b\n" ++ lines ++ indent depth ++ "\x7d"

/-! ### Kinds of nodes -/

/-- An expression: it has no terminator of its own. -/
def isExpression : Node → Bool
  | .identifier _ | .string _ | .number _ | .array _ | .object _ | .propertyAccess _ _
  | .elementAccess _ _ | .call _ _ _ _ | .newObject _ _ | .await _ | .conditional _ _ _
  | .binary _ _ _ | .unary _ _ | .arrow _ _ _ => true
  | _ => false

/-- An expression that needs parentheses as an operand. -/
def isLoose : Node → Bool
  | .arrow _ _ _ | .conditional _ _ _ | .binary _ _ _ => true
  | _ => false

/-- An expression that needs parentheses in front of a property access. -/
def isLooseObject : Node → Bool
  | .await _ | .unary _ _ => true
  | n => n.isLoose

/-- An object literal, which as the body of an arrow function would read as a block. -/
def isObject : Node → Bool
  | .object _ => true
  | _ => false

/-- The semicolon behind an expression in statement position. -/
def terminator (n : Node) : String := textIf n.isExpression ";"

/-! ### The printer -/

mutual

/-- A node inside `depth` blocks: a statement with its terminator, an expression bare. -/
def text (depth : Nat) : Node → String
  | .importDecl clause specifier => importText clause specifier
  | .varDecl kind entries => kind.keyword ++ " " ++ commas (entryTexts depth entries) ++ ";"
  | .expression e => e.text depth ++ ";"
  | .returnStmt value => "return" ++ textAfter depth " " value ++ ";"
  | .throwStmt value => "throw " ++ value.text depth ++ ";"
  | .function head body =>
    textIf head.isAsync "async " ++ "function " ++ headText head ++
      braces depth body.isEmpty (linesText (depth + 1) body)
  | .block statements => braces depth statements.isEmpty (linesText (depth + 1) statements)
  | .exportDecl declaration =>
    "export " ++ declaration.text depth ++ declaration.terminator
  | .exportDefault e => "export default " ++ e.text depth ++ ";"
  | .ifElse condition thenBranch elseBranch =>
    "if (" ++ condition.text depth ++ ") " ++ thenBranch.text depth ++ thenBranch.terminator ++
      elseText depth elseBranch
  | .forLoop init condition update body =>
    "for (" ++ initText depth init ++ ";" ++ textAfter depth " " condition ++ ";" ++
      textAfter depth " " update ++ ") " ++ body.text depth ++ body.terminator
  | .forOf kind binding iterable body =>
    "for (" ++ kind.keyword ++ " " ++ binding ++ " of " ++ iterable.text depth ++ ") " ++
      body.text depth ++ body.terminator
  | .whileLoop condition body =>
    "while (" ++ condition.text depth ++ ") " ++ body.text depth ++ body.terminator
  | .tryCatch body param handler finalizer =>
    "try " ++ braces depth body.isEmpty (linesText (depth + 1) body) ++
      blockTextAfter depth (" catch " ++ param.elim "" fun p => "(" ++ p ++ ") ") handler ++
      blockTextAfter depth " finally " finalizer
  | .classDecl name base members =>
    "class " ++ name.elim "" (· ++ " ") ++
      (match base with
        | none => ""
        | some b => "extends " ++ b.text depth ++ " ") ++
      braces depth members.isEmpty (linesText (depth + 1) members)
  | .method isStatic head body =>
    textIf isStatic "static " ++ textIf head.isAsync "async " ++ headText head ++
      braces depth body.isEmpty (linesText (depth + 1) body)
  | .classField name isStatic type init =>
    textIf isStatic "static " ++ name ++ typeText type ++ textAfter depth " = " init ++ ";"
  | .comment t => commentText depth t
  | .verbatim t => t
  | .fragment parts => partsText depth parts
  | .identifier name => name
  | .string value => Text.quote value
  | .number value => value
  | .array elements => "[" ++ commas (texts depth elements) ++ "]"
  | .object [] => "\x7b\x7d"
  | .object entries => "\x7b " ++ commas (valueTexts depth entries) ++ " \x7d"
  | .propertyAccess target name =>
    parenIf target.isLooseObject (target.text depth) ++ "." ++ name
  | .elementAccess target index =>
    parenIf target.isLoose (target.text depth) ++ "[" ++ index.text depth ++ "]"
  | .call _ callee typeArgs args =>
    parenIf callee.isLoose (callee.text depth) ++
      textIf (!typeArgs.isEmpty) ("<" ++ TypeExpr.textAll ", " typeArgs ++ ">") ++
      "(" ++ commas (texts depth args) ++ ")"
  | .newObject callee args =>
    "new " ++ parenIf callee.isLoose (callee.text depth) ++ "(" ++ commas (texts depth args) ++ ")"
  | .await e => "await " ++ parenIf e.isLoose (e.text depth)
  | .conditional condition whenTrue whenFalse =>
    parenIf condition.isLoose (condition.text depth) ++ " ? " ++ whenTrue.text depth ++ " : " ++
      whenFalse.text depth
  | .binary operator left right =>
    parenIf left.isLoose (left.text depth) ++ " " ++ operator ++ " " ++
      parenIf right.isLoose (right.text depth)
  | .unary operator operand =>
    operatorText operator ++ parenIf operand.isLoose (operand.text depth)
  | .arrow isAsync params body =>
    textIf isAsync "async " ++ signatureText params none ++ " => " ++
      parenIf body.isObject (body.text depth)

/-- The texts of the nodes of a list. -/
def texts (depth : Nat) : List Node → List String
  | [] => []
  | n :: ns => n.text depth :: texts depth ns

/-- Statements on lines of their own. -/
def linesText (depth : Nat) : List Node → String
  | [] => ""
  | n :: ns => indent depth ++ n.text depth ++ n.terminator ++ "\n" ++ linesText depth ns

/-- The parts of a fragment, one behind the other. -/
def partsText (depth : Nat) : List Node → String
  | [] => ""
  | n :: ns => n.text depth ++ partsText depth ns

/-- A lead and a node, if there is a node. -/
def textAfter (depth : Nat) (lead : String) : Option Node → String
  | none => ""
  | some n => lead ++ n.text depth

/-- The other branch of a condition. -/
def elseText (depth : Nat) : Option Node → String
  | none => ""
  | some n => " else " ++ n.text depth ++ n.terminator

/-- What a `for` loop begins with: a declaration has no semicolon of its own there. -/
def initText (depth : Nat) : Option Node → String
  | none => ""
  | some (.varDecl kind entries) => kind.keyword ++ " " ++ commas (entryTexts depth entries)
  | some n => n.text depth

/-- A lead and a block, if there is a block. -/
def blockTextAfter (depth : Nat) (lead : String) : Option (List Node) → String
  | none => ""
  | some statements =>
    lead ++ braces depth statements.isEmpty (linesText (depth + 1) statements)

/-- One entry of a declaration. -/
def entryText (depth : Nat) : Declarator Node → String
  | ⟨name, type, init⟩ => name ++ typeText type ++ textAfter depth " = " init

/-- The entries of a declaration. -/
def entryTexts (depth : Nat) : List (Declarator Node) → List String
  | [] => []
  | e :: es => entryText depth e :: entryTexts depth es

/-- One entry of an object. -/
def valueText (depth : Nat) : String × Node → String
  | (name, n) => keyText name ++ ": " ++ n.text depth

/-- The entries of an object. -/
def valueTexts (depth : Nat) : List (String × Node) → List String
  | [] => []
  | e :: es => valueText depth e :: valueTexts depth es

end

/-- A node in statement position. -/
def line (depth : Nat) (n : Node) : String := n.text depth ++ n.terminator

theorem texts_eq (depth : Nat) (ns : List Node) : texts depth ns = ns.map (text depth) := by
  induction ns with
  | nil => simp [texts]
  | cons n ns ih => simp [texts, ih]

theorem text_verbatim (depth : Nat) (t : String) : (verbatim t).text depth = t := by rw [text]

end Node

/-- The text of a unit, one statement after the other. -/
def SourceUnit.text (u : SourceUnit) : String := Node.linesText 0 u.statements

end DateFields
