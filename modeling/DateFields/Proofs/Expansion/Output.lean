import DateFields.Proofs.Expansion.Derivation

/-!
# What an expansion puts out

* `Program.derived_of_later`, `Program.expand_derived` — the statements of an expanded unit come from
  a derivation, whatever the table has been asked before;
* `Expands.aligned`, `Expands.chains` — only imports have no reply, and chains stay what they are;
* `filter_subtree_withReplies`, `filter_subtree_expandedCall` — the nodes of some kind in a reply, in
  terms of those in the replies below it.
-/

namespace DateFields

/-! ### Literals -/

/-- The literal of a list of paths is made of arrays and strings. -/
theorem FieldPaths.mem_subtree_literal {found : FieldPaths} {m : Node}
    (h : m ∈ found.literal.subtree) : (∃ es, m = .array es) ∨ ∃ v, m = .string v := by
  have hchildren : ∀ es : List Node, (Node.array es).children = es := Node.map_child_fixed
  rw [Node.subtree_eq, literal, hchildren, List.mem_cons, List.mem_flatMap] at h
  rcases h with rfl | ⟨n, hn, h⟩
  · exact .inl ⟨_, rfl⟩
  obtain ⟨path, -, rfl⟩ := List.mem_map.1 hn
  rw [Node.subtree_eq, FieldPath.literal, hchildren, List.mem_cons, List.mem_flatMap] at h
  rcases h with rfl | ⟨n, hn, h⟩
  · exact .inl ⟨_, rfl⟩
  obtain ⟨name, -, rfl⟩ := List.mem_map.1 hn
  rw [Node.subtree_eq, List.mem_cons] at h
  rcases h with rfl | h
  · exact .inr ⟨name, rfl⟩
  · cases h

namespace Scope

variable {s : Scope} {t : TypeTable} {ns : List Node} {c c' : Tally} {rs : List (Option Node)}

/-! ### Replies -/

/-- Only an import of the marker is left without a reply. -/
theorem Expands.aligned (h : Expands s t ns c rs c') :
    List.Forall₂ (fun n r => r = none → s.program.isMarkerImport s.file n = true) ns rs := by
  induction h with
  | nil => exact .nil
  | repeated himport _ _ ih => exact .cons (fun _ => himport) ih
  | load _ _ _ ih => exact .cons (fun h => by cases h) ih
  | call _ _ _ _ _ ih => exact .cons (fun h => by cases h) ih
  | keep _ _ _ _ _ ih => exact .cons (fun h => by cases h) ih

theorem chain?_of_isMarkerImport {n : Node} (h : s.program.isMarkerImport s.file n = true) :
    n.chain? = none := by
  cases n with
  | importDecl => rfl
  | _ => cases h

theorem chain?_of_payloadType? {n : Node} {type : TypeExpr} (h : s.payloadType? t n = some type) :
    n.chain? = none := by
  cases n with
  | call => rfl
  | _ => cases h

/-- What takes the place of a node is the chain that the node is, if it is one. -/
theorem Expands.chains (h : Expands s t ns c rs c') :
    List.Forall₂ (fun n r => (Option.getD r n).chain? = n.chain?) ns rs := by
  induction h with
  | nil => exact .nil
  | load himport _ _ ih => exact .cons (chain?_of_isMarkerImport himport).symm ih
  | repeated _ _ _ ih => exact .cons rfl ih
  | call hcall _ _ _ _ ih => exact .cons (chain?_of_payloadType? hcall).symm ih
  | keep _ _ _ _ ihbelow ih => exact .cons (Node.chain?_withReplies ihbelow) ih

/-! ### Nodes of some kind -/

/-- The nodes of some kind in the subtrees of replies. -/
def gathered (q : Node → Bool) (rs : List (Option Node)) : List Node :=
  rs.flatMap (·.elim [] fun m => m.subtree.filter q)

theorem gathered_nil (q : Node → Bool) : gathered q [] = [] := rfl

theorem gathered_none (q : Node → Bool) (rs : List (Option Node)) :
    gathered q (none :: rs) = gathered q rs := rfl

theorem gathered_some (q : Node → Bool) (m : Node) (rs : List (Option Node)) :
    gathered q (some m :: rs) = m.subtree.filter q ++ gathered q rs := rfl

theorem filter_subtree (q : Node → Bool) (n : Node) :
    n.subtree.filter q = [n].filter q ++ n.children.flatMap fun c => c.subtree.filter q := by
  rw [Node.subtree_eq, ← List.singleton_append, List.filter_append, List.filter_flatMap]

/-- What stays has the nodes of the replies, when no import of the marker that stays without a reply
is of the kind. -/
theorem Expands.flatMap_kept (q : Node → Bool) (slots : List Node.Slot)
    (h : Expands s t (slots.map Node.Slot.child) c rs c')
    (hq : ∀ slot ∈ slots, slot.inList = false →
      s.program.isMarkerImport s.file slot.child = true → q slot.child = false) :
    ((Node.keptChildren slots rs).flatMap fun m => m.subtree.filter q) = gathered q rs := by
  refine Node.flatMap_keptChildren _ ?_
  -- a child stays for want of a reply only if it is an import, and then there is nothing below it
  have haligned := List.forall₂_map_left_iff.1 h.aligned
  obtain ⟨hlen, hget⟩ := List.forall₂_iff_get.1 haligned
  refine List.forall₂_iff_get.2 ⟨hlen, fun i hi hi' hnone hlist => ?_⟩
  have himport := hget i hi hi' hnone
  have hfalse := hq _ (List.get_mem slots ⟨i, hi⟩) hlist himport
  rw [filter_subtree, Node.children_of_isMarkerImport himport, List.filter_singleton, hfalse]
  rfl

/-- The nodes of some kind in a kept node. -/
theorem Expands.filter_subtree_withReplies {q : Node → Bool} {n : Node}
    (h : Expands s t n.children c rs c')
    (hq : ∀ slot ∈ n.slots, slot.inList = false →
      s.program.isMarkerImport s.file slot.child = true → q slot.child = false) :
    (n.withReplies rs).subtree.filter q = [n.withReplies rs].filter q ++ gathered q rs := by
  rw [filter_subtree, Node.children_withReplies, Expands.flatMap_kept q n.slots h hq]

/-- A kind of nodes that no import and no literal of paths is of. -/
structure Plain (q : Node → Bool) : Prop where
  /-- No import is of the kind. -/
  importDecl : ∀ clause specifier, q (.importDecl clause specifier) = false
  /-- No array is of the kind. -/
  array : ∀ elements, q (.array elements) = false
  /-- No string is of the kind. -/
  string : ∀ value, q (.string value) = false

theorem Plain.of_isMarkerImport {q : Node → Bool} (hq : Plain q) {n : Node}
    (h : s.program.isMarkerImport s.file n = true) : q n = false := by
  cases n with
  | importDecl clause specifier => exact hq.importDecl clause specifier
  | _ => cases h

theorem filter_subtree_literal {q : Node → Bool} (harray : ∀ es, q (.array es) = false)
    (hstring : ∀ v, q (.string v) = false) (found : FieldPaths) :
    found.literal.subtree.filter q = [] := by
  refine List.filter_eq_nil_iff.2 fun m hm => ?_
  rcases FieldPaths.mem_subtree_literal hm with ⟨es, rfl⟩ | ⟨v, rfl⟩
  · simp [harray]
  · simp [hstring]

/-- The nodes of some kind in a call that takes the place of a call of the marker: the call itself,
what is called, and the nodes in the arguments. -/
theorem Expands.filter_subtree_expandedCall {q : Node → Bool} {args : List Node}
    (h : Expands s t args c rs c') (harray : ∀ es, q (.array es) = false)
    (hstring : ∀ v, q (.string v) = false)
    (hq : ∀ n ∈ args, s.program.isMarkerImport s.file n = true → q n = false)
    (found : FieldPaths) :
    (s.expandedCall found (Node.keptChildren (args.map .fixed) rs)).subtree.filter q =
      [s.expandedCall found (Node.keptChildren (args.map .fixed) rs),
        .propertyAccess (.identifier s.binding) s.program.config.support.function,
        .identifier s.binding].filter q ++ gathered q rs := by
  have hkept := Expands.flatMap_kept q (args.map .fixed)
    (by rw [Node.map_child_fixed]; exact h) fun slot hslot _ himport => by
      obtain ⟨n, hn, rfl⟩ := List.mem_map.1 hslot
      exact hq n hn himport
  rw [← hkept]
  generalize Node.keptChildren (args.map .fixed) rs = kept
  have hcallee : (Node.propertyAccess (.identifier s.binding)
      s.program.config.support.function).subtree = [.propertyAccess (.identifier s.binding)
        s.program.config.support.function, .identifier s.binding] := by
    rfl
  have hchildren : (s.expandedCall found kept).children = .propertyAccess (.identifier s.binding)
      s.program.config.support.function :: (kept.take 1 ++ found.literal :: kept.drop 1) := by
    show _ :: (List.map Node.Slot.fixed _).map Node.Slot.child = _
    rw [Node.map_child_fixed]
    rfl
  -- the literal of the paths stands between the arguments and adds nothing to them
  have hargs : (kept.take 1 ++ found.literal :: kept.drop 1).flatMap
      (fun m => m.subtree.filter q) = kept.flatMap fun m => m.subtree.filter q := by
    rw [List.flatMap_append, List.flatMap_cons, filter_subtree_literal harray hstring,
      List.nil_append, ← List.flatMap_append, List.take_append_drop]
  rw [filter_subtree, hchildren, List.flatMap_cons, hargs, hcallee, ← List.append_assoc,
    ← List.filter_append]
  rfl

/-- The nodes of some kind in the statement that loads the support module. -/
theorem filter_subtree_loadStatement (q : Node → Bool) :
    s.loadStatement.subtree.filter q = [s.loadStatement,
      .plainCall (.identifier "require") [.string s.program.config.support.module],
      .identifier "require", .string s.program.config.support.module].filter q :=
  rfl

end Scope

/-! ### Units -/

/-- An expanded unit, its statements coming from a derivation. -/
structure Derived (p : Program) (u : SourceUnit) (t : TypeTable) (e : Expansion)
    (rs : List (Option Node)) : Prop where
  /-- The statements of the unit are visited one after the other. -/
  expands : (p.scope u).Expands t u.statements .zero rs e.tally
  /-- The name of the support module. -/
  binding : e.binding = (p.scope u).binding
  /-- The file. -/
  path : e.unit.path = u.path
  /-- What comes of the statements, behind the loading of the support module when only calls have
  been found. -/
  statements : e.unit.statements =
    (if 0 < e.tally.calls && e.tally.imports = 0 then [(p.scope u).loadStatement] else []) ++
      rs.filterMap id

/-- An expansion on a table that `t` has grown into comes from a derivation on `t`, and leaves such a
table. -/
theorem Program.derived_of_later (p : Program) (u : SourceUnit) {t v : TypeTable} (h : t.Later v) :
    (∃ rs, Derived p u t ((p.expand u).run v).1 rs) ∧ t.Later ((p.expand u).run v).2 := by
  have hrun : (p.expand u).run v =
      let visited := ((u.statements.mapM (p.scope u).visit).run .zero).run v
      let statements := visited.1.1.filterMap id
      (⟨⟨u.path, if 0 < visited.1.2.calls && visited.1.2.imports = 0 then
        (p.scope u).loadStatement :: statements else statements⟩, (p.scope u).binding, visited.1.2⟩,
        visited.2) := rfl
  obtain ⟨hexpands, hlater⟩ := (p.scope u).follows_mapM_visit t u.statements .zero v h
  rw [hrun]
  refine ⟨⟨_, hexpands, rfl, rfl, ?_⟩, hlater⟩
  simp only
  split <;> rfl

theorem Program.expand_derived (p : Program) (u : SourceUnit) (t : TypeTable) :
    ∃ rs, Derived p u t ((p.expand u).run t).1 rs :=
  (p.derived_of_later u (.refl t)).1

theorem Program.later_expand (p : Program) (u : SourceUnit) (t : TypeTable) :
    t.Later ((p.expand u).run t).2 :=
  (p.derived_of_later u (.refl t)).2

section Units

variable {p : Program} {u : SourceUnit} {t : TypeTable} {e : Expansion} {rs : List (Option Node)}

/-- A statement of an expanded unit loads the support module or is a reply. -/
theorem Derived.mem_statements (h : Derived p u t e rs) {n : Node} (hn : n ∈ e.unit.statements) :
    n = (p.scope u).loadStatement ∨ some n ∈ rs := by
  rw [h.statements, List.mem_append] at hn
  rcases hn with hload | hreply
  · split at hload
    · exact .inl (List.mem_singleton.1 hload)
    · cases hload
  · obtain ⟨r, hr, hrn⟩ := List.mem_filterMap.1 hreply
    exact .inr (hrn ▸ hr)

/-- The nodes of some kind in an expanded unit. -/
theorem Derived.filter_nodes (h : Derived p u t e rs) (q : Node → Bool) :
    e.unit.nodes.filter q =
      (if 0 < e.tally.calls && e.tally.imports = 0 then (p.scope u).loadStatement.subtree.filter q
        else []) ++ Scope.gathered q rs := by
  have hkept := Scope.Expands.flatMap_kept q (u.statements.map .listed)
    (by rw [Node.map_child_listed]; exact h.expands) fun slot hslot hlist => by
      obtain ⟨n, -, rfl⟩ := List.mem_map.1 hslot
      cases hlist
  rw [Node.keptChildren_listed _ h.expands.length_eq] at hkept
  rw [SourceUnit.nodes, h.statements, List.filter_flatMap, List.flatMap_append, hkept]
  split <;> simp

end Units

end DateFields
