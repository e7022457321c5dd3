import DateFields.Node.Basic

/-!
# Children

The direct children of a node, and a node with other children in their place.

* `Node.children` — the children in source order; `Node.slots` also tells which of them stand in a
  list they can be left out of;
* `Node.mapChildren` — the node rebuilt from what a computation makes of each child;
  `Node.withReplies` takes the new children from a list;
* `Node.foldUp` — the recursion along children: the value of a node is computed from the values of
  its children (`Node.foldUp_eq`);
* `Node.ind_children` — the induction that goes with it.
-/

namespace DateFields.Node

/-! ### Slots -/

/-- A child and where it stands. -/
structure Slot where
  /-- The child. -/
  child : Node
  /-- It stands in a list that goes on without it: a body, a block, the members of a class, the
  parts of a fragment. -/
  inList : Bool

/-- A child that its parent cannot do without. -/
def Slot.fixed (n : Node) : Slot := ⟨n, false⟩

/-- A child in a list. -/
def Slot.listed (n : Node) : Slot := ⟨n, true⟩

/-- The initial values among the entries of a declaration. -/
def initialValues (entries : List (Declarator Node)) : List Node := entries.filterMap Declarator.init

/-- The children of a node with their places, in source order. -/
def slots : Node → List Slot
  | .importDecl _ _ => []
  | .varDecl _ entries => (initialValues entries).map .fixed
  | .expression e => [.fixed e]
  | .returnStmt value => value.toList.map .fixed
  | .function _ body => body.map .listed
  | .block statements => statements.map .listed
  | .exportDecl declaration => [.fixed declaration]
  | .exportDefault e => [.fixed e]
  | .ifElse condition thenBranch elseBranch =>
    [.fixed condition, .fixed thenBranch] ++ elseBranch.toList.map .fixed
  | .forLoop init condition update body =>
    (init.toList ++ condition.toList ++ update.toList ++ [body]).map .fixed
  | .forOf _ _ iterable body => [.fixed iterable, .fixed body]
  | .whileLoop condition body => [.fixed condition, .fixed body]
  | .tryCatch body _ handler finalizer =>
    (body ++ handler.getD [] ++ finalizer.getD []).map .listed
  | .throwStmt value => [.fixed value]
  | .classDecl _ base members => base.toList.map .fixed ++ members.map .listed
  | .method _ _ body => body.map .listed
  | .classField _ _ _ init => init.toList.map .fixed
  | .comment _ => []
  | .verbatim _ => []
  | .fragment parts => parts.map .listed
  | .identifier _ => []
  | .string _ => []
  | .number _ => []
  | .array elements => elements.map .fixed
  | .object entries => entries.map fun e => .fixed e.2
  | .propertyAccess target _ => [.fixed target]
  | .elementAccess target index => [.fixed target, .fixed index]
  | .call _ callee _ args => .fixed callee :: args.map .fixed
  | .newObject callee args => .fixed callee :: args.map .fixed
  | .await e => [.fixed e]
  | .conditional condition whenTrue whenFalse =>
    [.fixed condition, .fixed whenTrue, .fixed whenFalse]
  | .binary _ left right => [.fixed left, .fixed right]
  | .unary _ operand => [.fixed operand]
  | .arrow _ _ body => [.fixed body]

/-- The direct children of a node, in source order. -/
def children (n : Node) : List Node := n.slots.map Slot.child

/-! ### Replies -/

section MapChildren

variable {m : Type → Type} [Monad m] (f : Node → m (Option Node))

/-- A child that has to stay: without a reply it is kept. -/
def mapOne (n : Node) : m Node := return (← f n).getD n

/-- A child that may not be there in the first place. -/
def mapOption : Option Node → m (Option Node)
  | none => return none
  | some n => return some (← mapOne f n)

/-- Children that all have to stay. -/
def mapEach : List Node → m (List Node)
  | [] => return []
  | n :: ns => return (← mapOne f n) :: (← mapEach ns)

/-- The children of a list: without a reply a child is left out. -/
def mapList : List Node → m (List Node)
  | [] => return []
  | n :: ns => return (← f n).toList ++ (← mapList ns)

/-- The children of a list that may not be there in the first place. -/
def mapListOption : Option (List Node) → m (Option (List Node))
  | none => return none
  | some ns => return some (← mapList f ns)

/-- Initial values. -/
def mapEntries : List (Declarator Node) → m (List (Declarator Node))
  | [] => return []
  | e :: es => return { e with init := ← mapOption f e.init } :: (← mapEntries es)

/-- The values of an object. -/
def mapValues : List (String × Node) → m (List (String × Node))
  | [] => return []
  | e :: es => return (e.1, ← mapOne f e.2) :: (← mapValues es)

/-- Ask `f` for a reply to every child, in source order, and rebuild the node. -/
def mapChildren : Node → m Node
  | .importDecl clause specifier => return .importDecl clause specifier
  | .varDecl kind entries => return .varDecl kind (← mapEntries f entries)
  | .expression e => return .expression (← mapOne f e)
  | .returnStmt value => return .returnStmt (← mapOption f value)
  | .function head body => return .function head (← mapList f body)
  | .block statements => return .block (← mapList f statements)
  | .exportDecl declaration => return .exportDecl (← mapOne f declaration)
  | .exportDefault e => return .exportDefault (← mapOne f e)
  | .ifElse condition thenBranch elseBranch =>
    return .ifElse (← mapOne f condition) (← mapOne f thenBranch) (← mapOption f elseBranch)
  | .forLoop init condition update body =>
    return .forLoop (← mapOption f init) (← mapOption f condition) (← mapOption f update)
      (← mapOne f body)
  | .forOf kind binding iterable body =>
    return .forOf kind binding (← mapOne f iterable) (← mapOne f body)
  | .whileLoop condition body => return .whileLoop (← mapOne f condition) (← mapOne f body)
  | .tryCatch body param handler finalizer =>
    return .tryCatch (← mapList f body) param (← mapListOption f handler)
      (← mapListOption f finalizer)
  | .throwStmt value => return .throwStmt (← mapOne f value)
  | .classDecl name base members =>
    return .classDecl name (← mapOption f base) (← mapList f members)
  | .method isStatic head body => return .method isStatic head (← mapList f body)
  | .classField name isStatic type init =>
    return .classField name isStatic type (← mapOption f init)
  | .comment text => return .comment text
  | .verbatim text => return .verbatim text
  | .fragment parts => return .fragment (← mapList f parts)
  | .identifier name => return .identifier name
  | .string value => return .string value
  | .number value => return .number value
  | .array elements => return .array (← mapEach f elements)
  | .object entries => return .object (← mapValues f entries)
  | .propertyAccess target name => return .propertyAccess (← mapOne f target) name
  | .elementAccess target index => return .elementAccess (← mapOne f target) (← mapOne f index)
  | .call id callee typeArgs args => return .call id (← mapOne f callee) typeArgs (← mapEach f args)
  | .newObject callee args => return .newObject (← mapOne f callee) (← mapEach f args)
  | .await e => return .await (← mapOne f e)
  | .conditional condition whenTrue whenFalse =>
    return .conditional (← mapOne f condition) (← mapOne f whenTrue) (← mapOne f whenFalse)
  | .binary operator left right => return .binary operator (← mapOne f left) (← mapOne f right)
  | .unary operator operand => return .unary operator (← mapOne f operand)
  | .arrow isAsync params body => return .arrow isAsync params (← mapOne f body)

end MapChildren

/-- A computation that takes replies from the front of a queue, one for each child. -/
abbrev Taking := StateM (List (Option Node))

/-- The next reply, whichever child it is for. -/
def reply (_ : Node) : Taking (Option Node) := modifyGet fun rs => (rs.head?.join, rs.tail)

/-- A node rebuilt from replies for its children, taken in source order. -/
def rebuild : Node → Taking Node := mapChildren reply

/-- The node with each child replaced by its reply.  A child without a reply is left out of a list
and kept everywhere else. -/
def withReplies (n : Node) (replies : List (Option Node)) : Node := (n.rebuild replies).1

/-! ### Recursion along children -/

section FoldUp

variable {α : Type} (f : Node → List α → α)

mutual

/-- The value of a node, computed by `f` from the node and the values of its children. -/
def foldUp : Node → α
  | .importDecl clause specifier => f (.importDecl clause specifier) []
  | .varDecl kind entries => f (.varDecl kind entries) (foldUpEntries entries)
  | .expression e => f (.expression e) [foldUp e]
  | .returnStmt value => f (.returnStmt value) (foldUpOption value)
  | .function head body => f (.function head body) (foldUpAll body)
  | .block statements => f (.block statements) (foldUpAll statements)
  | .exportDecl declaration => f (.exportDecl declaration) [foldUp declaration]
  | .exportDefault e => f (.exportDefault e) [foldUp e]
  | .ifElse condition thenBranch elseBranch =>
    f (.ifElse condition thenBranch elseBranch)
      ([foldUp condition, foldUp thenBranch] ++ foldUpOption elseBranch)
  | .forLoop init condition update body =>
    f (.forLoop init condition update body)
      (foldUpOption init ++ foldUpOption condition ++ foldUpOption update ++ [foldUp body])
  | .forOf kind binding iterable body =>
    f (.forOf kind binding iterable body) [foldUp iterable, foldUp body]
  | .whileLoop condition body => f (.whileLoop condition body) [foldUp condition, foldUp body]
  | .tryCatch body param handler finalizer =>
    f (.tryCatch body param handler finalizer)
      (foldUpAll body ++ foldUpAllOption handler ++ foldUpAllOption finalizer)
  | .throwStmt value => f (.throwStmt value) [foldUp value]
  | .classDecl name base members =>
    f (.classDecl name base members) (foldUpOption base ++ foldUpAll members)
  | .method isStatic head body => f (.method isStatic head body) (foldUpAll body)
  | .classField name isStatic type init =>
    f (.classField name isStatic type init) (foldUpOption init)
  | .comment text => f (.comment text) []
  | .verbatim text => f (.verbatim text) []
  | .fragment parts => f (.fragment parts) (foldUpAll parts)
  | .identifier name => f (.identifier name) []
  | .string value => f (.string value) []
  | .number value => f (.number value) []
  | .array elements => f (.array elements) (foldUpAll elements)
  | .object entries => f (.object entries) (foldUpValues entries)
  | .propertyAccess target name => f (.propertyAccess target name) [foldUp target]
  | .elementAccess target index => f (.elementAccess target index) [foldUp target, foldUp index]
  | .call id callee typeArgs args =>
    f (.call id callee typeArgs args) (foldUp callee :: foldUpAll args)
  | .newObject callee args => f (.newObject callee args) (foldUp callee :: foldUpAll args)
  | .await e => f (.await e) [foldUp e]
  | .conditional condition whenTrue whenFalse =>
    f (.conditional condition whenTrue whenFalse)
      [foldUp condition, foldUp whenTrue, foldUp whenFalse]
  | .binary operator left right => f (.binary operator left right) [foldUp left, foldUp right]
  | .unary operator operand => f (.unary operator operand) [foldUp operand]
  | .arrow isAsync params body => f (.arrow isAsync params body) [foldUp body]

/-- The values of the nodes of a list. -/
def foldUpAll : List Node → List α
  | [] => []
  | n :: ns => foldUp n :: foldUpAll ns

/-- The value of a node that may be missing. -/
def foldUpOption : Option Node → List α
  | none => []
  | some n => [foldUp n]

/-- The values of the nodes of a list that may be missing. -/
def foldUpAllOption : Option (List Node) → List α
  | none => []
  | some ns => foldUpAll ns

/-- The value of the initial value of an entry. -/
def foldUpEntry : Declarator Node → List α
  | ⟨_, _, init⟩ => foldUpOption init

/-- The values of the initial values of a declaration. -/
def foldUpEntries : List (Declarator Node) → List α
  | [] => []
  | e :: es => foldUpEntry e ++ foldUpEntries es

/-- The value of the node of an object entry. -/
def foldUpValue : String × Node → α
  | (_, n) => foldUp n

/-- The values of the nodes of an object. -/
def foldUpValues : List (String × Node) → List α
  | [] => []
  | e :: es => foldUpValue e :: foldUpValues es

end

theorem foldUpAll_eq (ns : List Node) : foldUpAll f ns = ns.map (foldUp f) := by
  induction ns with
  | nil => simp [foldUpAll]
  | cons n ns ih => simp [foldUpAll, ih]

theorem foldUpOption_eq (o : Option Node) : foldUpOption f o = o.toList.map (foldUp f) := by
  cases o <;> simp [foldUpOption]

theorem foldUpAllOption_eq (o : Option (List Node)) :
    foldUpAllOption f o = (o.getD []).map (foldUp f) := by
  cases o <;> simp [foldUpAllOption, foldUpAll_eq]

theorem foldUpEntries_eq (es : List (Declarator Node)) :
    foldUpEntries f es = (initialValues es).map (foldUp f) := by
  induction es with
  | nil => simp [foldUpEntries, initialValues]
  | cons e es ih =>
    rw [foldUpEntries, ih]
    obtain ⟨name, type, init⟩ := e
    cases init <;> simp [foldUpEntry, foldUpOption, initialValues]

theorem foldUpValues_eq (es : List (String × Node)) :
    foldUpValues f es = es.map fun e => foldUp f e.2 := by
  induction es with
  | nil => simp [foldUpValues]
  | cons e es ih =>
    obtain ⟨k, n⟩ := e
    simp [foldUpValues, foldUpValue, ih]

/-- The value of a node is `f` of the node and the values of its children. -/
theorem foldUp_eq (n : Node) : foldUp f n = f n (n.children.map (foldUp f)) := by
  cases n <;>
    simp [foldUp, children, slots, Slot.fixed, Slot.listed, foldUpAll_eq, foldUpOption_eq,
      foldUpAllOption_eq, foldUpEntries_eq, foldUpValues_eq, Function.comp_def]

end FoldUp

/-! ### Induction along children -/

theorem sizeOf_lt_of_mem_initialValues {c : Node} {entries : List (Declarator Node)}
    (h : c ∈ initialValues entries) : sizeOf c < sizeOf entries := by
  simp only [initialValues, List.mem_filterMap] at h
  obtain ⟨⟨name, type, init⟩, hmem, rfl⟩ := h
  have := List.sizeOf_lt_of_mem hmem
  simp only [Declarator.mk.sizeOf_spec, Option.some.sizeOf_spec] at this
  omega

theorem sizeOf_lt_of_mem_toList {c : Node} {o : Option Node} (h : c ∈ o.toList) :
    sizeOf c < sizeOf o := by
  cases o with
  | none => simp at h
  | some n => simp_all

theorem sizeOf_lt_of_mem_getD {c : Node} {o : Option (List Node)} (h : c ∈ o.getD []) :
    sizeOf c < sizeOf o := by
  cases o with
  | none => simp at h
  | some ns =>
    have h' : sizeOf c < sizeOf ns := List.sizeOf_lt_of_mem h
    simp only [Option.some.sizeOf_spec]
    omega

theorem sizeOf_lt_of_mem_values {c : Node} {entries : List (String × Node)}
    (h : c ∈ entries.map Prod.snd) : sizeOf c < sizeOf entries := by
  obtain ⟨⟨k, n⟩, hmem, rfl⟩ := List.mem_map.1 h
  have h' : sizeOf (k, n) < sizeOf entries := List.sizeOf_lt_of_mem hmem
  simp only [Prod.mk.sizeOf_spec] at h'
  simp only
  omega

theorem map_child_fixed (ns : List Node) : (ns.map Slot.fixed).map Slot.child = ns := by
  simp [Function.comp_def, Slot.fixed]

theorem map_child_listed (ns : List Node) : (ns.map Slot.listed).map Slot.child = ns := by
  simp [Function.comp_def, Slot.listed]

/-- A child is smaller than its parent. -/
theorem sizeOf_lt_of_mem_children {c n : Node} (h : c ∈ n.children) : sizeOf c < sizeOf n := by
  have hl : ∀ ns : List Node, c ∈ ns → sizeOf c < sizeOf ns := fun _ => List.sizeOf_lt_of_mem
  have ho : ∀ o : Option Node, c ∈ o.toList → sizeOf c < sizeOf o := fun _ =>
    sizeOf_lt_of_mem_toList
  have hg : ∀ o : Option (List Node), c ∈ o.getD [] → sizeOf c < sizeOf o := fun _ =>
    sizeOf_lt_of_mem_getD
  have hi : ∀ es, c ∈ initialValues es → sizeOf c < sizeOf es := fun _ =>
    sizeOf_lt_of_mem_initialValues
  have hv : ∀ es : List (String × Node), c ∈ es.map Prod.snd → sizeOf c < sizeOf es := fun _ =>
    sizeOf_lt_of_mem_values
  cases n <;> simp only [children, slots, List.map_append, List.map_cons, List.map_nil,
    map_child_fixed, map_child_listed, List.mem_append, List.mem_cons,
    List.not_mem_nil, or_false, Slot.fixed] at h <;> simp +arith only [varDecl.sizeOf_spec,
    expression.sizeOf_spec, returnStmt.sizeOf_spec, function.sizeOf_spec, block.sizeOf_spec,
    exportDecl.sizeOf_spec, exportDefault.sizeOf_spec, ifElse.sizeOf_spec, forLoop.sizeOf_spec,
    forOf.sizeOf_spec, whileLoop.sizeOf_spec, tryCatch.sizeOf_spec, throwStmt.sizeOf_spec,
    classDecl.sizeOf_spec, method.sizeOf_spec, classField.sizeOf_spec, fragment.sizeOf_spec,
    array.sizeOf_spec, object.sizeOf_spec, propertyAccess.sizeOf_spec,
    elementAccess.sizeOf_spec, call.sizeOf_spec, newObject.sizeOf_spec, await.sizeOf_spec,
    conditional.sizeOf_spec, binary.sizeOf_spec, unary.sizeOf_spec, arrow.sizeOf_spec]
  all_goals grind

/-- Induction along children. -/
theorem ind_children {P : Node → Prop} (h : ∀ n, (∀ c ∈ n.children, P c) → P n) (n : Node) :
    P n :=
  h n fun c hc => have := sizeOf_lt_of_mem_children hc; ind_children h c
termination_by n

end DateFields.Node
