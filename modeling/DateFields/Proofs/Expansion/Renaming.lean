import DateFields.Proofs.Expansion.Correspondence

/-!
# Units that differ in their names

Where the marker is imported and called is told by files and by the numbers of the calls.  The names
that a unit has chosen decide how the support module is called in it, and nothing else.

* `Node.anonymous`, `SourceUnit.anonymous` — a tree with its local names taken out;
* `Program.reached_anonymous` — a tree is visited as it is without its names;
* `Scope.map_secondArgument?_sites` — the paths that the calls on the support module are given;
* `Program.expand_renamed` — units that are the same without their names have the same imports and
  calls of the marker, and the same paths.
-/

namespace DateFields

/-! ### Names taken out -/

/-- The parameter without its name. -/
def Parameter.unnamed (p : Parameter) : Parameter := { p with name := "" }

/-- The function without its name and those of its parameters. -/
def FunctionHead.unnamed (h : FunctionHead) : FunctionHead :=
  { h with name := "", params := h.params.map Parameter.unnamed }

namespace Node

/-- The node without the local names that it declares or uses.  An import clause is nothing but
names. -/
def unnamed : Node → Node
  | .importDecl _ specifier => .importDecl none specifier
  | .varDecl kind entries => .varDecl kind (entries.map fun e => { e with name := "" })
  | .function head body => .function head.unnamed body
  | .forOf kind _ iterable body => .forOf kind "" iterable body
  | .tryCatch body param handler finalizer =>
    .tryCatch body (param.map fun _ => "") handler finalizer
  | .classDecl name base members => .classDecl (name.map fun _ => "") base members
  | .method isStatic head body => .method isStatic head.unnamed body
  | .identifier _ => .identifier ""
  | .arrow isAsync params body => .arrow isAsync (params.map Parameter.unnamed) body
  | n => n

/-- The node without local names, its own and those below it. -/
def anonymous : Node → Node := foldUp fun n below => n.unnamed.withReplies (below.map some)

/-- The node is no call, or a call that the host has numbered. -/
def isNumbered : Node → Bool
  | .call id _ _ _ => id ≠ .synthetic
  | _ => true

/-- The second argument of a call. -/
def secondArgument? : Node → Option Node
  | .call _ _ _ (_ :: second :: _) => some second
  | _ => none

theorem anonymous_eq (n : Node) :
    n.anonymous = n.unnamed.withReplies ((n.children.map anonymous).map some) :=
  foldUp_eq _ n

theorem slots_unnamed (n : Node) : n.unnamed.slots = n.slots := by
  cases n with
  | varDecl kind entries =>
    simp [unnamed, slots, initialValues, List.filterMap_map]
  | _ => rfl

/-- Children that are all replied to are all there. -/
theorem keptChildren_map_some (slots : List Slot) {ns : List Node}
    (h : slots.length = ns.length) : keptChildren slots (ns.map some) = ns := by
  induction slots generalizing ns with
  | nil => rw [List.length_eq_zero_iff.1 h.symm]; rfl
  | cons s slots ih =>
    obtain ⟨n, ns, rfl⟩ := List.exists_cons_of_length_eq_add_one h.symm
    rw [List.map_cons, keptChildren_cons, ih (Nat.succ.inj h)]
    rfl

theorem children_anonymous (n : Node) : n.anonymous.children = n.children.map anonymous := by
  rw [anonymous_eq, children_withReplies, slots_unnamed, keptChildren_map_some]
  simp [children]

theorem keptArgs_anonymous (n : Node) : n.anonymous.keptArgs = n.keptArgs.map anonymous := by
  rw [keptArgs, keptArgs, children_anonymous, List.map_take, List.map_drop]

/-- A call without its names has the same number, the same type arguments and as many arguments. -/
theorem anonymous_call (id : CallId) (callee : Node) (typeArgs : List TypeExpr) (args : List Node) :
    (call id callee typeArgs args).anonymous =
      .call id callee.anonymous typeArgs (args.map anonymous) := by
  have hchildren : (call id callee typeArgs args).children = callee :: args := by
    simp [children, slots, Slot.fixed, Function.comp_def]
  rw [anonymous_eq, hchildren]
  show (call id callee typeArgs args).withReplies _ = _
  rw [withReplies_call, List.map_cons, List.map_cons, List.head?_cons, List.tail_cons,
    keptChildren_map_some _ (by simp)]
  rfl

theorem isNumbered_anonymous (n : Node) : n.anonymous.isNumbered = n.isNumbered := by
  cases n with
  | call id callee typeArgs args => rw [anonymous_call]; rfl
  | _ => rfl

theorem subtree_anonymous (n : Node) : n.anonymous.subtree = n.subtree.map anonymous := by
  induction n using ind_children with
  | _ n ih =>
    rw [subtree_eq, subtree_eq, children_anonymous, List.map_cons, List.flatMap_map,
      List.map_flatMap]
    refine congrArg (n.anonymous :: ·) ?_
    rw [List.flatMap_def, List.flatMap_def, List.map_congr_left ih]

end Node

/-- The unit without local names. -/
def SourceUnit.anonymous (u : SourceUnit) : SourceUnit :=
  { u with statements := u.statements.map Node.anonymous }

theorem SourceUnit.nodes_anonymous (u : SourceUnit) :
    u.anonymous.nodes = u.nodes.map Node.anonymous := by
  rw [nodes, nodes, anonymous, List.flatMap_map, List.map_flatMap]
  simp only [Node.subtree_anonymous]

/-! ### The marker -/

section Marker

variable {p : Program} {t : TypeTable} {file : Path} {n : Node}

theorem Program.isMarkerImport_anonymous (n : Node) :
    p.isMarkerImport file n.anonymous = p.isMarkerImport file n := by
  cases n with
  | call id callee typeArgs args => rw [Node.anonymous_call]; rfl
  | _ => rfl

/-- What a numbered call is found by has nothing to do with names. -/
theorem TypeTable.callKey?_of_numbered {id : CallId} (h : id ≠ .synthetic) (callee : Node) :
    callKey? id callee = some (.number id) :=
  if_neg h

/-- Without its names, a numbered call is the same call of the marker. -/
theorem Scope.payloadType?_anonymous {s : Scope} (h : n.isNumbered = true) :
    s.payloadType? t n.anonymous = s.payloadType? t n := by
  cases n with
  | call id callee typeArgs args =>
    have hid : id ≠ .synthetic := of_decide_eq_true h
    rw [Node.anonymous_call]
    cases typeArgs <;> cases args <;> try rfl
    rw [List.map_cons, payloadType?, payloadType?, Program.isMarkerCall, Program.isMarkerCall,
      TypeTable.declarationOf?, TypeTable.declarationOf?, TypeTable.callKey?_of_numbered hid,
      TypeTable.callKey?_of_numbered hid]
  | _ => rfl

theorem Program.isExpandable_anonymous (h : n.isNumbered = true) :
    p.isExpandable t file n.anonymous = p.isExpandable t file n := by
  have hpayload := Scope.payloadType?_anonymous (s := ⟨p, file, "", []⟩) (t := t) h
  rw [← Scope.isSome_payloadType? (s := ⟨p, file, "", []⟩),
    ← Scope.isSome_payloadType? (s := ⟨p, file, "", []⟩), hpayload]

/-- A tree is visited as it is without its names. -/
theorem Program.reached_anonymous (h : ∀ m ∈ n.subtree, m.isNumbered = true) :
    p.reached t file n.anonymous = (p.reached t file n).map Node.anonymous := by
  induction n using Node.ind_children with
  | _ n ih =>
    have hchildren : ∀ c ∈ n.children, p.reached t file c.anonymous =
        (p.reached t file c).map Node.anonymous := fun c hc =>
      ih c hc fun m hm => h m (Node.mem_subtree_of_child hc hm)
    have hbelow : ∀ cs : List Node, cs ⊆ n.children → (cs.map Node.anonymous).flatMap
        (p.reached t file) = (cs.flatMap (p.reached t file)).map Node.anonymous := by
      intro cs hcs
      rw [List.flatMap_map, List.map_flatMap, List.flatMap_def, List.flatMap_def,
        List.map_congr_left fun c hc => hchildren c (hcs hc)]
    rw [reached_eq, reached_eq, isExpandable_anonymous (h n n.self_mem_subtree), List.map_cons,
      Node.keptArgs_anonymous, Node.children_anonymous]
    split
    · rw [hbelow n.keptArgs fun c hc => List.mem_of_mem_drop (List.mem_of_mem_take hc)]
    · rw [hbelow n.children (List.Subset.refl _)]

end Marker

/-! ### Paths -/

namespace Scope

variable {s : Scope} {t : TypeTable} {n : Node}

/-- The paths that are found for a call of the marker, as they are written. -/
def pathLiteral? (s : Scope) (t : TypeTable) (n : Node) : Option Node :=
  (s.payloadType? t n).map fun type =>
    ((t.pathsOf? s.program.config.timestamp [] type.unwrapArrays).getD []).literal

/-- The name of the support module takes no part in finding paths. -/
theorem pathLiteral?_congr {s' : Scope} (hprogram : s.program = s'.program)
    (hfile : s.file = s'.file) : s.pathLiteral? t n = s'.pathLiteral? t n := by
  have hpayload : s.payloadType? t n = s'.payloadType? t n := by
    cases n with
    | call id callee typeArgs args =>
      cases typeArgs <;> cases args <;> try rfl
      rw [payloadType?, payloadType?, hprogram, hfile]
    | _ => rfl
  rw [pathLiteral?, pathLiteral?, hpayload, hprogram]

theorem secondArgument?_replacement (h : s.program.isExpandable t s.file n = true) (seen : Nat) :
    (s.replacement t (seen, n)).secondArgument? = s.pathLiteral? t n := by
  rw [← isSome_payloadType?, Option.isSome_iff_exists] at h
  obtain ⟨type, htype⟩ := h
  rw [pathLiteral?, htype]
  obtain ⟨id, callee, types, payload, options, rfl⟩ := exists_eq_call htype
  rfl

/-- The calls on the support module are given the paths that are found for the calls they stand
for. -/
theorem map_secondArgument?_sites (seen : Nat) (ns : List Node) :
    ((s.sites t seen ns).map (s.replacement t)).map Node.secondArgument? =
      (ns.filter (s.program.isExpandable t s.file)).map (s.pathLiteral? t) := by
  have hsites := map_snd_sites (s := s) (t := t) seen ns
  rw [← hsites, List.map_map, List.map_map]
  refine List.map_congr_left fun site hsite => ?_
  have hmem : site.2 ∈ ns.filter (s.program.isExpandable t s.file) := by
    rw [← hsites]
    exact List.mem_map_of_mem hsite
  exact secondArgument?_replacement (List.mem_filter.1 hmem).2 site.1

end Scope

/-! ### Units -/

section Units

variable {p : Program} {u v : SourceUnit} {t : TypeTable} {e f : Expansion}
  {rs rs' : List (Option Node)}

/-- What is visited of a unit without its names. -/
theorem Program.visited_anonymous (h : ∀ n ∈ u.nodes, n.isNumbered = true) :
    u.anonymous.statements.flatMap (p.reached t u.path) =
      (u.statements.flatMap (p.reached t u.path)).map Node.anonymous := by
  rw [SourceUnit.anonymous, List.flatMap_map, List.map_flatMap, List.flatMap_def,
    List.flatMap_def, List.map_congr_left]
  exact fun n hn => reached_anonymous fun m hm => h m (List.mem_flatMap.2 ⟨n, hn, hm⟩)

theorem isNumbered_of_mem_visited (h : ∀ n ∈ u.nodes, n.isNumbered = true) {n : Node}
    (hn : n ∈ u.statements.flatMap (p.reached t u.path)) : n.isNumbered = true := by
  obtain ⟨m, hm, hn⟩ := List.mem_flatMap.1 hn
  exact h n (List.mem_flatMap.2 ⟨m, hm, Program.mem_subtree_of_mem_reached hn⟩)

/-- What is found in a unit is what is found in it without its names. -/
theorem Derived.imports_anonymous (he : Derived p u t e rs)
    (h : ∀ n ∈ u.nodes, n.isNumbered = true) : e.tally.imports =
      (u.anonymous.statements.flatMap (p.reached t u.path)).countP
        (p.isMarkerImport u.path) := by
  rw [he.imports_eq, Program.visited_anonymous h, List.countP_map]
  exact List.countP_congr fun n _ => by rw [Function.comp_apply, Program.isMarkerImport_anonymous]

theorem Derived.calls_anonymous (he : Derived p u t e rs)
    (h : ∀ n ∈ u.nodes, n.isNumbered = true) : e.tally.calls =
      (u.anonymous.statements.flatMap (p.reached t u.path)).countP
        (p.isExpandable t u.path) := by
  rw [he.calls_eq, Program.visited_anonymous h, List.countP_map]
  refine List.countP_congr fun n hn => ?_
  rw [Function.comp_apply, Program.isExpandable_anonymous (isNumbered_of_mem_visited h hn)]

/-- So are the paths that the calls on the support module are given. -/
theorem Derived.paths_anonymous (he : Derived p u t e rs) (ht : t.WellFormed)
    (h : ∀ n ∈ u.nodes, n.isNumbered = true) :
    (e.unit.nodes.filter (Node.callsOn e.binding)).map Node.secondArgument? =
      ((u.anonymous.statements.flatMap (p.reached t u.path)).filter
        (p.isExpandable t u.path)).map ((p.scope u).pathLiteral? t) := by
  have hnumbered := fun n hn => isNumbered_of_mem_visited (p := p) (t := t) (n := n) h hn
  rw [he.filter_callsOn ht, Scope.map_secondArgument?_sites, Program.visited_anonymous h,
    List.filter_map, List.map_map]
  have hfilter : (u.statements.flatMap (p.reached t u.path)).filter
      (p.isExpandable t u.path ∘ Node.anonymous) =
        (u.statements.flatMap (p.reached t u.path)).filter (p.isExpandable t u.path) :=
    List.filter_congr fun n hn => Program.isExpandable_anonymous (hnumbered n hn)
  rw [hfilter]
  refine List.map_congr_left fun n hn => ?_
  rw [Function.comp_apply, Scope.pathLiteral?, Scope.pathLiteral?,
    Scope.payloadType?_anonymous (hnumbered n (List.mem_filter.1 hn).1)]

end Units

/-- Units of one file that are the same without their local names, and in which the host has numbered
every call, have the same imports and the same calls of the marker, and the calls on the support
module are given the same paths, in the same order. -/
theorem Program.expand_renamed (p : Program) (u v : SourceUnit) (ops : List TypeTable.Operation)
    (hsame : u.anonymous = v.anonymous) (hnumbered : ∀ n ∈ u.nodes, n.isNumbered = true) :
    let t := TypeTable.ofOperations ops
    let e := ((p.expand u).run t).1
    let f := ((p.expand v).run t).1
    e.tally.imports = f.tally.imports ∧ e.tally.calls = f.tally.calls ∧
    (e.unit.nodes.filter (Node.callsOn e.binding)).map Node.secondArgument? =
      (f.unit.nodes.filter (Node.callsOn f.binding)).map Node.secondArgument? := by
  intro t e f
  have ht : t.WellFormed := TypeTable.wellFormed_ofOperations ops
  obtain ⟨rs, he⟩ : ∃ rs, Derived p u t e rs := p.expand_derived u t
  obtain ⟨rs', hf⟩ : ∃ rs, Derived p v t f rs := p.expand_derived v t
  have hpath : u.path = v.path := by
    simpa [SourceUnit.anonymous] using congrArg SourceUnit.path hsame
  -- the calls of the other unit have the same numbers
  have hnumbered' : ∀ n ∈ v.nodes, n.isNumbered = true := by
    intro n hn
    have hmem : n.anonymous ∈ u.nodes.map Node.anonymous := by
      rw [← SourceUnit.nodes_anonymous, hsame, SourceUnit.nodes_anonymous]
      exact List.mem_map_of_mem hn
    obtain ⟨m, hm, hmn⟩ := List.mem_map.1 hmem
    rw [← Node.isNumbered_anonymous, ← hmn, Node.isNumbered_anonymous]
    exact hnumbered m hm
  have hliteral : (p.scope u).pathLiteral? t = (p.scope v).pathLiteral? t :=
    funext fun n => Scope.pathLiteral?_congr rfl hpath
  rw [he.imports_anonymous hnumbered, he.calls_anonymous hnumbered, he.paths_anonymous ht hnumbered,
    hf.imports_anonymous hnumbered', hf.calls_anonymous hnumbered',
    hf.paths_anonymous ht hnumbered', hsame, hpath, hliteral]
  exact ⟨rfl, rfl, rfl⟩

namespace Sample

/-- The marker is imported and called under its own name. -/
def plainlyNamed : SourceUnit := ⟨⟨"/a.ts"⟩, [markerImport, .expression markerCall]⟩

/-- The same with the name that the support module would have in the place of the marker's, and the
marker's name in the place of the payload's. -/
def oddlyNamed : SourceUnit :=
  ⟨⟨"/a.ts"⟩, [.importDecl (some ⟨some "transformerDates_1", none, []⟩) "ts-transformer-dates",
    .expression (.call ⟨1⟩ (.identifier "transformerDates_1") [.reference "Event" []]
      [.identifier "toDates"])]⟩

/-- The support module gets another name, and the call is given the same paths. -/
theorem expand_renamed_oddly :
    let e := ((program.expand plainlyNamed).run types).1
    let f := ((program.expand oddlyNamed).run types).1
    plainlyNamed.anonymous = oddlyNamed.anonymous ∧
    (∀ n ∈ plainlyNamed.nodes, n.isNumbered = true) ∧
    e.binding = "transformerDates_1" ∧ f.binding = "transformerDates_2" ∧
    e.tally.calls = 1 ∧ e.tally.calls = f.tally.calls ∧
    (f.unit.nodes.filter (Node.callsOn f.binding)).map Node.secondArgument? =
      (e.unit.nodes.filter (Node.callsOn e.binding)).map Node.secondArgument? := by
  have hsame : plainlyNamed.anonymous = oddlyNamed.anonymous := rfl
  have hnumbered : ∀ n ∈ plainlyNamed.nodes, n.isNumbered = true := by decide
  have htypes := TypeTable.ofDeclarations_eq
    [⟨"Event", .ofInterface, [], [⟨"at", some (.reference "Date" [])⟩]⟩]
    [⟨⟨"/a.ts"⟩, some ⟨1⟩, none, ⟨.function, ⟨"/m/index.d.ts"⟩, some "toDates"⟩⟩]
  obtain ⟨-, hcalls, hpaths⟩ :=
    program.expand_renamed plainlyNamed oddlyNamed _ hsame hnumbered
  rw [← htypes] at hcalls hpaths
  exact ⟨hsame, hnumbered, by decide +kernel, by decide +kernel, by decide +kernel, hcalls,
    hpaths.symm⟩

end Sample

end DateFields
