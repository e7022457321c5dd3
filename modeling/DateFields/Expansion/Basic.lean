import DateFields.Expansion.Program
import DateFields.Node.Names
import DateFields.TypeTable.Discovery

/-!
# Expansion

`import { toDates } from "ts-transformer-dates"` becomes the loading of the support module, and a
call `toDates<T>(payload, options)` becomes a call of the support function that is also given the
paths to all dates inside `T`.

* `Program.expand` — a unit expanded;
* `Expansion` — the expanded unit and what has been done to it;
* `Scope.visit` — one node expanded, everything below it included; `Scope.visit_eq` gives it in
  terms of the children.

The support module is loaded once in a unit, under a name that the unit does not use.  Units of one
program are expanded one after the other with the same type table.
-/

namespace DateFields

/-! ### Counting -/

/-- What has been found in a unit so far. -/
structure Tally where
  /-- Imports of the marker. -/
  imports : Nat
  /-- Calls of the marker that have been expanded. -/
  calls : Nat
  /-- Raw texts that mention a name of the marker. -/
  mentions : Nat
  deriving DecidableEq, Repr

namespace Tally

/-- Nothing has been found. -/
def zero : Tally := ⟨0, 0, 0⟩

/-- One import more. -/
def addImport (t : Tally) : Tally := { t with imports := t.imports + 1 }

/-- One call more. -/
def addCall (t : Tally) : Tally := { t with calls := t.calls + 1 }

/-- One mention more. -/
def addMention (t : Tally) : Tally := { t with mentions := t.mentions + 1 }

end Tally

/-- A computation that counts what it finds and may enter types into the table. -/
abbrev Expanding := StateT Tally TypeTable.Entering

/-! ### One unit -/

/-- What is fixed while a unit is expanded. -/
structure Scope where
  /-- The program. -/
  program : Program
  /-- The file of the unit. -/
  file : Path
  /-- The name of the loaded support module. -/
  binding : String
  /-- The names under which the unit imports the marker. -/
  markerNames : List String

namespace Scope

variable (s : Scope)

/-- `var binding = require("module");` -/
def loadStatement : Node :=
  .varDecl .functionScoped [⟨s.binding, none,
    some (.plainCall (.identifier "require") [.string s.program.config.support.module])⟩]

/-- `binding.function(…)` -/
def supportCall (args : List Node) : Node :=
  .plainCall (.propertyAccess (.identifier s.binding) s.program.config.support.function) args

/-- The type argument of a call that can be expanded: a call of the marker with a type argument and
a payload. -/
def payloadType? (types : TypeTable) : Node → Option TypeExpr
  | n@(.call _ _ (type :: _) (_ :: _)) =>
    if s.program.isMarkerCall types s.file n then some type else none
  | _ => none

/-- The node is raw text that mentions a name of the marker. -/
def mentionsMarker : Node → Bool
  | .verbatim text => (Text.identifierWords text).any s.markerNames.contains
  | _ => false

/-- The paths to the dates inside the elements of a type; none for a type that does not resolve. -/
def paths (type : TypeExpr) : TypeTable.Entering FieldPaths := do
  match ← (TypeTable.resolve type.unwrapArrays).run with
  | none => return []
  | some id => TypeTable.discover s.program.config.timestamp id []

/-- An import of the marker: the first one loads the support module, all others are left out. -/
def expandImport : Expanding (Option Node) := do
  let before ← get
  set before.addImport
  return if before.imports = 0 then some s.loadStatement else none

/-- A call of the marker: its payload, the paths inside the type, and its options.  Further
arguments are dropped.  An argument may turn out to be nothing, and then it stays as it is. -/
def expandCall (type : TypeExpr) (args : List (Node × Expanding (Option Node))) :
    Expanding Node := do
  let paths ← s.paths type
  let kept ← (args.take 2).mapM fun a => return (← a.2).getD a.1
  modify Tally.addCall
  return s.supportCall (kept.take 1 ++ paths.literal :: kept.drop 1)

/-- A node, given the expansions of its children.  Nothing comes of a repeated import. -/
def expandNode (n : Node) (below : List (Expanding (Option Node))) : Expanding (Option Node) := do
  if s.program.isMarkerImport s.file n then s.expandImport
  else match s.payloadType? (← getThe TypeTable) n with
    | some type => some <$> s.expandCall type ((n.children.zip below).drop 1)
    | none => do
      modify fun t => if s.mentionsMarker n then t.addMention else t
      return some (n.withReplies (← below.mapM id))

/-- A node expanded, with everything below it. -/
def visit : Node → Expanding (Option Node) := Node.foldUp s.expandNode

theorem visit_eq (n : Node) : s.visit n = s.expandNode n (n.children.map s.visit) :=
  Node.foldUp_eq s.expandNode n

end Scope

/-! ### Units of a program -/

/-- An expanded unit, and what has been done to it. -/
structure Expansion where
  /-- The unit. -/
  unit : SourceUnit
  /-- The name of the loaded support module. -/
  binding : String
  /-- What has been found. -/
  tally : Tally

/-- There was something to expand. -/
def Expansion.changed (e : Expansion) : Bool := 0 < e.tally.imports || 0 < e.tally.calls

namespace Program

variable (p : Program)

/-- The names under which a unit imports the marker at its top level. -/
def markerNames (u : SourceUnit) : List String :=
  (u.statements.filter (p.isMarkerImport u.path)).flatMap Node.importedNames

/-- What is fixed while a unit is expanded. -/
def scope (u : SourceUnit) : Scope :=
  ⟨p, u.path, Text.freshName p.config.support.stem u.names, p.markerNames u⟩

/-- The statements of a unit expanded, and what has been found.  When the marker is called without
being imported, the support module is loaded in front. -/
def expandStatements (u : SourceUnit) : TypeTable.Entering (List Node × Tally) := do
  let s := p.scope u
  let (statements, tally) ← (u.statements.mapM s.visit).run .zero
  let statements := statements.filterMap id
  return (if 0 < tally.calls && tally.imports = 0 then s.loadStatement :: statements else statements,
    tally)

/-- A unit expanded. -/
def expand (u : SourceUnit) : TypeTable.Entering Expansion := do
  let (statements, tally) ← p.expandStatements u
  return ⟨{ u with statements }, (p.scope u).binding, tally⟩

end Program

end DateFields
