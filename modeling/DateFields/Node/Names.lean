import DateFields.Node.Children
import DateFields.Text.Word

/-!
# Names in a unit

Every name that a unit binds or mentions, so that a new name can be chosen apart from all of them.

* `Node.ownNames` — the names a node itself brings in: a name it declares or uses, and the words of
  raw text and of comments;
* `Node.subtree` — a node and everything below it;
* `SourceUnit.names` — the names anywhere in a unit, in order and without repetition.
-/

namespace DateFields

namespace Node

/-- The names a node itself declares or mentions, its children left aside. -/
def ownNames : Node → List String
  | .identifier name => [name]
  | .propertyAccess _ name => [name]
  | .classField name _ _ _ => [name]
  | .varDecl _ entries => entries.map Declarator.name
  | .function head _ => head.name :: head.params.map Parameter.name
  | .method _ head _ => head.name :: head.params.map Parameter.name
  | .arrow _ params _ => params.map Parameter.name
  | .classDecl name _ _ => name.toList
  | .forOf _ binding _ _ => [binding]
  | .tryCatch _ param _ _ => param.toList
  | .importDecl clause _ => clause.elim [] ImportClause.localNames
  | .verbatim text => Text.identifierWords text
  | .comment text => Text.identifierWords text
  | _ => []

/-- A node, then everything below it, in source order. -/
def subtree : Node → List Node := foldUp fun n below => n :: below.flatten

theorem subtree_eq (n : Node) : n.subtree = n :: n.children.flatMap subtree := by
  rw [subtree, foldUp_eq, List.flatMap_def]

end Node

namespace SourceUnit

/-- Every node of a unit, each before the nodes below it. -/
def nodes (u : SourceUnit) : List Node := u.statements.flatMap Node.subtree

/-- A name put into its place in an ordered list, unless it is there already. -/
def insertName (s : String) : List String → List String
  | [] => [s]
  | t :: ts => if s = t then t :: ts else if s < t then s :: t :: ts else t :: insertName s ts

theorem mem_insertName {s t : String} {ts : List String} :
    t ∈ insertName s ts ↔ t = s ∨ t ∈ ts := by
  induction ts with
  | nil => simp [insertName]
  | cons u us ih =>
    rw [insertName]
    split
    · subst u; simp
    · split
      · simp
      · simp only [List.mem_cons, ih]; exact or_left_comm

/-- The names in a unit, ordered by code points, each once. -/
def names (u : SourceUnit) : List String := (u.nodes.flatMap Node.ownNames).foldr insertName []

theorem mem_names {u : SourceUnit} {s : String} :
    s ∈ u.names ↔ ∃ n ∈ u.nodes, s ∈ n.ownNames := by
  have key : ∀ l : List String, s ∈ l.foldr insertName [] ↔ s ∈ l := by
    intro l
    induction l with
    | nil => simp
    | cons t ts ih => simp [mem_insertName, ih]
  rw [names, key, List.mem_flatMap]

end SourceUnit

end DateFields
