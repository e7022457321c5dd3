import DateFields.Proofs.Expansion.Output
import DateFields.Proofs.Text.FreshName

/-!
# One name for the support module

The support module is loaded under a name that the unit does not use, at most once, and the name is
used for nothing but calls of the support function.

* `Expands.gathered_declares` — the name is declared by the statement that loads the module, and by
  nothing else;
* `Expands.length_gathered_isNamed` — it is used once for every call that has been expanded;
* `Expands.onlyCalled` — it is only used to call the support function;
* `Program.expand_hygienic` — all of this for a unit.
-/

namespace DateFields

/-! ### Names in nodes -/

/-- The node is a variable declaration with an entry of that name. -/
def Node.declares (name : String) : Node → Bool
  | .varDecl _ entries => entries.any (·.name == name)
  | _ => false

/-- The node is that plain name. -/
def Node.isNamed (name : String) : Node → Bool
  | .identifier n => n == name
  | _ => false

/-- Below the node, the name only stands where a property of it is called without type arguments. -/
def Node.OnlyCalled (name function : String) (n : Node) : Prop :=
  ∀ address, n.at? address = some (.identifier name) → ∃ call args, address = call ++ [0, 0] ∧
    n.at? call = some (.plainCall (.propertyAccess (.identifier name) function) args)

namespace Node

variable {name function : String} {n : Node}

theorem mem_ownNames_of_declares (h : n.declares name = true) : name ∈ n.ownNames := by
  cases n with
  | varDecl kind entries =>
    obtain ⟨e, he, hname⟩ := List.any_eq_true.1 h
    exact List.mem_map.2 ⟨e, he, eq_of_beq hname⟩
  | _ => cases h

theorem mem_ownNames_of_isNamed (h : n.isNamed name = true) : name ∈ n.ownNames := by
  cases n with
  | identifier text => rw [eq_of_beq h]; exact List.mem_cons_self
  | _ => cases h

theorem OnlyCalled.of_not_mem (h : .identifier name ∉ n.subtree) : n.OnlyCalled name function :=
  fun _ hat => absurd (mem_subtree_of_at? hat) h

/-- A name that is only called below the children is only called below the node. -/
theorem OnlyCalled.of_children (hn : n ≠ .identifier name)
    (h : ∀ c ∈ n.children, c.OnlyCalled name function) : n.OnlyCalled name function := by
  intro address hat
  cases address with
  | nil => exact absurd (Option.some.inj hat) hn
  | cons i address =>
    obtain ⟨c, hc, hat⟩ := at?_cons.1 hat
    obtain ⟨call, args, rfl, hcall⟩ := h c (List.mem_of_getElem? hc) address hat
    exact ⟨i :: call, args, rfl, at?_cons.2 ⟨c, hc, hcall⟩⟩

theorem children_plainCall (callee : Node) (args : List Node) :
    (plainCall callee args).children = callee :: args := by
  show callee :: (args.map Slot.fixed).map Slot.child = _
  rw [map_child_fixed]

/-- A call of a property of the name. -/
theorem onlyCalled_plainCall {args : List Node} (h : ∀ a ∈ args, a.OnlyCalled name function) :
    (plainCall (.propertyAccess (.identifier name) function) args).OnlyCalled name function := by
  intro address hat
  rcases address with _ | ⟨_ | i, address⟩
  · cases hat
  · -- inside the callee
    obtain ⟨c, hc, hat⟩ := at?_cons.1 hat
    rw [children_plainCall] at hc
    cases hc
    rcases address with _ | ⟨_ | j, address⟩
    · cases hat
    · obtain ⟨c, hc, hat⟩ := at?_cons.1 hat
      cases hc
      cases address with
      | nil => exact ⟨[], args, rfl, rfl⟩
      | cons k address => obtain ⟨c, hc, -⟩ := at?_cons.1 hat; cases hc
    · obtain ⟨c, hc, -⟩ := at?_cons.1 hat
      cases hc
  · obtain ⟨c, hc, hat⟩ := at?_cons.1 hat
    rw [children_plainCall, List.getElem?_cons_succ] at hc
    obtain ⟨call, args', rfl, hcall⟩ := h c (List.mem_of_getElem? hc) address hat
    refine ⟨(i + 1) :: call, args', rfl, at?_cons.2 ⟨c, ?_, hcall⟩⟩
    rw [children_plainCall, List.getElem?_cons_succ, hc]

end Node

namespace Scope

/-! ### Unused names -/

/-- The name of the support module is not brought in by any of the nodes or below them. -/
def Unused (s : Scope) (ns : List Node) : Prop := Node.Everywhere (s.binding ∉ ·.ownNames) ns

variable {s : Scope} {t : TypeTable} {n : Node} {ns : List Node} {c c' : Tally}
  {rs : List (Option Node)}

theorem plain_declares (name : String) : Plain (Node.declares name) :=
  ⟨fun _ _ => rfl, fun _ => rfl, fun _ => rfl⟩

theorem plain_isNamed (name : String) : Plain (Node.isNamed name) :=
  ⟨fun _ _ => rfl, fun _ => rfl, fun _ => rfl⟩

/-- A kept node brings in no name that the node before did not bring in. -/
theorem filter_withReplies {f : Node → Bool} (hf : ∀ m, f m = true → s.binding ∈ m.ownNames)
    (h : s.binding ∉ n.ownNames) : [n.withReplies rs].filter f = [] := by
  rw [List.filter_eq_nil_iff]
  intro m hm hfm
  obtain rfl := List.mem_singleton.1 hm
  have hmem := hf _ hfm
  rw [Node.ownNames_withReplies] at hmem
  exact h hmem

/-! ### The loading of the support module -/

theorem filter_declares_loadStatement (s : Scope) :
    s.loadStatement.subtree.filter (Node.declares s.binding) = [s.loadStatement] := by
  rw [filter_subtree_loadStatement]
  simp [loadStatement, Node.declares, Node.plainCall]

theorem filter_isNamed_loadStatement (h : s.binding ≠ "require") :
    s.loadStatement.subtree.filter (Node.isNamed s.binding) = [] := by
  rw [filter_subtree_loadStatement]
  simp [loadStatement, Node.isNamed, Node.plainCall, h.symm]

theorem onlyCalled_loadStatement (h : s.binding ≠ "require") {function : String} :
    s.loadStatement.OnlyCalled s.binding function := by
  refine .of_not_mem fun hmem => ?_
  have hnone := List.filter_eq_nil_iff.1 (filter_isNamed_loadStatement h) _ hmem
  exact hnone (beq_self_eq_true _)

/-! ### Declarations -/

/-- Something that happens when a count leaves zero happens once. -/
theorem once_append {α : Type} (a : α) {i j k : Nat} (hij : i ≤ j) (hjk : j ≤ k) :
    (if i = 0 ∧ 0 < j then [a] else []) ++ (if j = 0 ∧ 0 < k then [a] else []) =
      if i = 0 ∧ 0 < k then [a] else [] := by
  by_cases hi : i = 0 <;> by_cases hj : j = 0
  · simp [hi, hj]
  · simp [hi, hj, Nat.pos_of_ne_zero hj, Nat.lt_of_lt_of_le (Nat.pos_of_ne_zero hj) hjk]
  · omega
  · simp [hi, hj]

/-- The name is declared where the first import of the marker has been. -/
theorem Expands.gathered_declares (h : Expands s t ns c rs c') (hunused : s.Unused ns) :
    gathered (Node.declares s.binding) rs =
      if c.imports = 0 ∧ 0 < c'.imports then [s.loadStatement] else [] := by
  induction h with
  | @nil c => rw [gathered_nil, if_neg fun h => Nat.lt_irrefl _ (h.1 ▸ h.2)]
  | @load n ns c c' rs himport hfirst hrest ih =>
    have hpos : 0 < c'.imports := Nat.lt_of_lt_of_le (Nat.succ_pos _) hrest.imports_le
    rw [gathered_some, filter_declares_loadStatement, ih hunused.tail,
      if_neg fun h => Nat.succ_ne_zero _ h.1, if_pos ⟨hfirst, hpos⟩]
    rfl
  | repeated himport hlater hrest ih =>
    rw [gathered_none, ih hunused.tail, if_neg fun h => Nat.succ_ne_zero _ h.1,
      if_neg fun h => hlater h.1]
  | @call n ns c c₁ c' ks rs type found hcall hfound hargs hrest ihargs ih =>
    -- the first import is among the arguments or behind the call
    have hcalled : [s.expandedCall found (Node.keptChildren (n.keptArgs.map .fixed) ks),
        .propertyAccess (.identifier s.binding) s.program.config.support.function,
        .identifier s.binding].filter (Node.declares s.binding) = [] := rfl
    rw [gathered_some, hargs.filter_subtree_expandedCall (plain_declares _).array
      (plain_declares _).string (fun _ _ => (plain_declares _).of_isMarkerImport), hcalled,
      List.nil_append, ihargs hunused.keptArgs, ih hunused.tail]
    exact once_append s.loadStatement hargs.imports_le hrest.imports_le
  | @keep n ns c c₁ c' ks rs himport hcall hbelow hrest ihbelow ih =>
    have hle := hbelow.imports_le
    rw [imports_meet] at hle
    rw [gathered_some, hbelow.filter_subtree_withReplies
      (fun _ _ _ => (plain_declares _).of_isMarkerImport), ihbelow hunused.children,
      ih hunused.tail, filter_withReplies (fun _ => Node.mem_ownNames_of_declares) hunused.head,
      List.nil_append, imports_meet,
      once_append s.loadStatement hle hrest.imports_le]

/-! ### Uses -/

/-- The name is used once for every call that is expanded. -/
theorem Expands.length_gathered_isNamed (h : Expands s t ns c rs c') (hunused : s.Unused ns)
    (hrequire : s.binding ≠ "require") :
    c.calls + (gathered (Node.isNamed s.binding) rs).length = c'.calls := by
  induction h with
  | nil => rfl
  | load himport hfirst hrest ih =>
    rw [gathered_some, filter_isNamed_loadStatement hrequire, List.nil_append]
    exact ih hunused.tail
  | repeated himport hlater hrest ih => exact ih hunused.tail
  | @call n ns c c₁ c' ks rs type found hcall hfound hargs hrest ihargs ih =>
    have hcalled : [s.expandedCall found (Node.keptChildren (n.keptArgs.map .fixed) ks),
        .propertyAccess (.identifier s.binding) s.program.config.support.function,
        .identifier s.binding].filter (Node.isNamed s.binding) = [.identifier s.binding] := by
      simp [expandedCall, supportCall, Node.plainCall, Node.isNamed]
    rw [gathered_some, hargs.filter_subtree_expandedCall (plain_isNamed _).array
      (plain_isNamed _).string (fun _ _ => (plain_isNamed _).of_isMarkerImport), hcalled,
      List.length_append, List.length_append, List.length_singleton, ← ih hunused.tail,
      Tally.addCall, ← ihargs hunused.keptArgs]
    simp only [Nat.add_assoc, Nat.add_comm, Nat.add_left_comm]
  | @keep n ns c c₁ c' ks rs himport hcall hbelow hrest ihbelow ih =>
    rw [gathered_some, hbelow.filter_subtree_withReplies
      (fun _ _ _ => (plain_isNamed _).of_isMarkerImport),
      filter_withReplies (fun _ => Node.mem_ownNames_of_isNamed) hunused.head, List.nil_append,
      List.length_append, ← Nat.add_assoc, ← calls_meet (s := s) n c, ihbelow hunused.children,
      ih hunused.tail]

/-- Below a child that stays as it is the name does not occur. -/
theorem onlyCalled_keptChildren {slots : List Node.Slot} {function : String}
    (hunused : s.Unused (slots.map (·.child)))
    (hrs : ∀ m, some m ∈ rs → m.OnlyCalled s.binding function) :
    ∀ m ∈ Node.keptChildren slots rs, m.OnlyCalled s.binding function := by
  intro m hm
  rcases Node.mem_keptChildren hm with hm | hm
  · exact hrs m hm
  · exact .of_not_mem fun hmem => hunused m hm _ hmem List.mem_cons_self

/-- An expanded call is one of the calls of the support function. -/
theorem onlyCalled_expandedCall {found : FieldPaths} {kept : List Node}
    (h : ∀ a ∈ kept, a.OnlyCalled s.binding s.program.config.support.function) :
    (s.expandedCall found kept).OnlyCalled s.binding s.program.config.support.function := by
  have hliteral : found.literal.OnlyCalled s.binding s.program.config.support.function := by
    -- arrays of strings hold no names
    refine .of_not_mem fun hmem => ?_
    rcases FieldPaths.mem_subtree_literal hmem with ⟨es, he⟩ | ⟨v, hv⟩
    · cases he
    · cases hv
  refine Node.onlyCalled_plainCall fun a ha => ?_
  rcases List.mem_append.1 ha with ha | ha
  · exact h a (List.mem_of_mem_take ha)
  rcases List.mem_cons.1 ha with rfl | ha
  · exact hliteral
  · exact h a (List.mem_of_mem_drop ha)

theorem onlyCalled_withReplies {function : String} (hunused : s.Unused (n :: ns))
    (hrs : ∀ m, some m ∈ rs → m.OnlyCalled s.binding function) :
    (n.withReplies rs).OnlyCalled s.binding function := by
  have hne : n.withReplies rs ≠ .identifier s.binding := by
    intro hname
    refine hunused.head ?_
    rw [← Node.ownNames_withReplies n rs, hname]
    exact List.mem_cons_self
  refine .of_children hne ?_
  rw [Node.children_withReplies]
  exact onlyCalled_keptChildren hunused.children hrs

/-- The name is only used to call the support function. -/
theorem Expands.onlyCalled (h : Expands s t ns c rs c') (hunused : s.Unused ns)
    (hrequire : s.binding ≠ "require") : ∀ m, some m ∈ rs →
      m.OnlyCalled s.binding s.program.config.support.function := by
  induction h with
  | nil => intro m hm; cases hm
  | load himport hfirst hrest ih =>
    intro m hm
    rcases List.mem_cons.1 hm with hm | hm
    · cases hm
      exact onlyCalled_loadStatement hrequire
    · exact ih hunused.tail m hm
  | repeated himport hlater hrest ih =>
    intro m hm
    rcases List.mem_cons.1 hm with hm | hm
    · cases hm
    · exact ih hunused.tail m hm
  | @call n ns c c₁ c' ks rs type found hcall hfound hargs hrest ihargs ih =>
    intro m hm
    rcases List.mem_cons.1 hm with hm | hm
    · cases hm
      have hunused' : s.Unused ((n.keptArgs.map Node.Slot.fixed).map (·.child)) := by
        rw [Node.map_child_fixed]
        exact hunused.keptArgs
      exact onlyCalled_expandedCall (onlyCalled_keptChildren hunused' (ihargs hunused.keptArgs))
    · exact ih hunused.tail m hm
  | keep himport hcall hbelow hrest ihbelow ih =>
    intro m hm
    rcases List.mem_cons.1 hm with hm | hm
    · cases hm
      exact onlyCalled_withReplies hunused (ihbelow hunused.children)
    · exact ih hunused.tail m hm

end Scope

/-! ### Units -/

/-- A unit does not bring in the name chosen for it. -/
theorem Program.unused_scope (p : Program) (u : SourceUnit) :
    (p.scope u).Unused u.statements := fun n hn m hm hmem =>
  Text.freshName_not_mem _ u.names (SourceUnit.mem_names.2 ⟨m, List.mem_flatMap.2 ⟨n, hn, hm⟩, hmem⟩)

theorem Program.binding_scope_ne (p : Program) (u : SourceUnit) :
    (p.scope u).binding ≠ "require" :=
  Text.freshName_ne (by decide)

section Units

variable {p : Program} {u : SourceUnit} {t : TypeTable} {e : Expansion} {rs : List (Option Node)}

/-- The name is declared by the loading of the support module, if anything has been expanded. -/
theorem Derived.filter_declares (h : Derived p u t e rs) :
    e.unit.nodes.filter (Node.declares e.binding) =
      if 0 < e.tally.imports ∨ 0 < e.tally.calls then [(p.scope u).loadStatement] else [] := by
  rw [h.binding, h.filter_nodes, h.expands.gathered_declares (p.unused_scope u),
    Scope.filter_declares_loadStatement]
  by_cases himports : 0 < e.tally.imports
  · -- the first import has become the loading of the module
    simp [himports, Nat.ne_of_gt himports, Tally.zero]
  · -- the loading of the module stands in front, if there have been calls
    simp [Nat.eq_zero_of_not_pos himports]

/-- The name is used once for every call that has been expanded. -/
theorem Derived.countP_isNamed (h : Derived p u t e rs) :
    e.unit.nodes.countP (Node.isNamed e.binding) = e.tally.calls := by
  have hrequire := p.binding_scope_ne u
  have hnamed := h.expands.length_gathered_isNamed (p.unused_scope u) hrequire
  rw [h.binding, List.countP_eq_length_filter, h.filter_nodes,
    Scope.filter_isNamed_loadStatement hrequire, ite_self, List.nil_append, ← hnamed]
  exact (Nat.zero_add _).symm

/-- The name is only used to call the support function. -/
theorem Derived.onlyCalled (h : Derived p u t e rs) {n : Node} (hn : n ∈ e.unit.statements) :
    n.OnlyCalled e.binding p.config.support.function := by
  have hrequire := p.binding_scope_ne u
  rw [h.binding]
  rcases h.mem_statements hn with rfl | hreply
  · exact Scope.onlyCalled_loadStatement hrequire
  · exact h.expands.onlyCalled (p.unused_scope u) hrequire n hreply

end Units

/-- The name of the support module is new to the unit.  In the expanded unit it is declared by one
statement, the one that loads the support module, if anything has been expanded, and otherwise
nowhere; it is used as often as calls have been expanded, and each time as the object of the access
to the support function that a call without number and type arguments calls. -/
theorem Program.expand_hygienic (p : Program) (u : SourceUnit) (types : TypeTable) :
    let e := ((p.expand u).run types).1
    e.binding ∉ u.names ∧
    e.unit.nodes.filter (Node.declares e.binding) =
      (if 0 < e.tally.imports ∨ 0 < e.tally.calls then
        [.varDecl .functionScoped [⟨e.binding, none,
          some (.plainCall (.identifier "require") [.string p.config.support.module])⟩]]
      else []) ∧
    e.unit.nodes.countP (Node.isNamed e.binding) = e.tally.calls ∧
    ∀ address, e.unit.at? address = some (.identifier e.binding) → ∃ call args,
      address = call ++ [0, 0] ∧ e.unit.at? call = some (.plainCall
        (.propertyAccess (.identifier e.binding) p.config.support.function) args) := by
  intro e
  obtain ⟨rs, h⟩ : ∃ rs, Derived p u types e rs := p.expand_derived u types
  refine ⟨?_, h.filter_declares, h.countP_isNamed, ?_⟩
  · rw [h.binding]
    exact Text.freshName_not_mem _ _
  · intro address hat
    cases address with
    | nil => cases hat
    | cons i address =>
      obtain ⟨n, hn, hat⟩ := SourceUnit.at?_cons.1 hat
      have hcalled := h.onlyCalled (List.mem_of_getElem? hn)
      obtain ⟨call, args, rfl, hcall⟩ := hcalled address hat
      exact ⟨i :: call, args, rfl, SourceUnit.at?_cons.2 ⟨n, hn, hcall⟩⟩

end DateFields
