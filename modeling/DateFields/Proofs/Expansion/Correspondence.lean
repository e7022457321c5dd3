import DateFields.Proofs.Expansion.Hygiene

/-!
# Calls before and after

Every call of the marker that is visited and can be expanded turns into one call on the support
module, in source order and with its own paths, payload and options; no call that could be expanded
is left.

* `Expands.functional` — what comes of nodes depends on whether an import has been met before, and on
  nothing else that has been found;
* `Scope.sites`, `Scope.replacement` — the calls to be expanded among the visited nodes, and the call
  that takes the place of each;
* `Expands.gathered_isExpandable` — no call to be expanded is left;
* `Expands.gathered_callsOn` — the calls on the support module are the replacements, in order;
* `Program.expand_calls` — all of this for a unit.
-/

namespace DateFields

namespace Scope

variable {s : Scope} {t : TypeTable} {n : Node} {ns : List Node} {c c' : Tally}
  {rs : List (Option Node)}

/-! ### What nodes turn into -/

theorem isMarkerImport_of_payloadType? {type : TypeExpr} (h : s.payloadType? t n = some type) :
    s.program.isMarkerImport s.file n = false :=
  Program.isMarkerImport_of_isExpandable (isExpandable_of_payloadType? h)

/-- What comes of nodes is told by the number of imports that have been met before. -/
theorem Expands.functional (ht : t.WellFormed) (h : Expands s t ns c rs c') {d d' : Tally}
    {rs' : List (Option Node)} (h' : Expands s t ns d rs' d') (hcd : c.imports = d.imports) :
    rs = rs' ∧ c'.imports = d'.imports := by
  -- the rules exclude each other, so the second derivation takes the rule of the first
  induction h generalizing d rs' d' with
  | nil =>
    cases h'
    exact ⟨rfl, hcd⟩
  | load himport hfirst _ ih =>
    cases h' with
    | load _ _ hrest' =>
      obtain ⟨rfl, himports⟩ := ih hrest' (congrArg (· + 1) hcd)
      exact ⟨rfl, himports⟩
    | repeated _ hlater _ => exact absurd (hcd ▸ hfirst) hlater
    | call hcall => rw [isMarkerImport_of_payloadType? hcall] at himport; cases himport
    | keep hnot => rw [hnot] at himport; cases himport
  | repeated himport hlater _ ih =>
    cases h' with
    | load _ hfirst _ => exact absurd (hcd.trans hfirst) hlater
    | repeated _ _ hrest' =>
      obtain ⟨rfl, himports⟩ := ih hrest' (congrArg (· + 1) hcd)
      exact ⟨rfl, himports⟩
    | call hcall => rw [isMarkerImport_of_payloadType? hcall] at himport; cases himport
    | keep hnot => rw [hnot] at himport; cases himport
  | call hcall hfound _ _ ihargs ih =>
    cases h' with
    | load himport => rw [isMarkerImport_of_payloadType? hcall] at himport; cases himport
    | repeated himport => rw [isMarkerImport_of_payloadType? hcall] at himport; cases himport
    | call hcall' hfound' hargs' hrest' =>
      obtain rfl := Option.some.inj (hcall.symm.trans hcall')
      obtain ⟨rfl, hbetween⟩ := ihargs hargs' hcd
      obtain ⟨rfl, himports⟩ := ih hrest' hbetween
      rw [hfound.eq ht, hfound'.eq ht]
      exact ⟨rfl, himports⟩
    | keep _ hnone => rw [hcall] at hnone; cases hnone
  | keep hnot hnone _ _ ihbelow ih =>
    cases h' with
    | load himport => rw [hnot] at himport; cases himport
    | repeated himport => rw [hnot] at himport; cases himport
    | call hcall' => rw [hnone] at hcall'; cases hcall'
    | keep _ _ hbelow' hrest' =>
      obtain ⟨rfl, hbetween⟩ := ihbelow hbelow' (by rw [imports_meet, imports_meet, hcd])
      obtain ⟨rfl, himports⟩ := ih hrest' hbetween
      exact ⟨rfl, himports⟩

/-- What a node becomes when so many imports of the marker have been met before it. -/
def rewritten (s : Scope) (t : TypeTable) (seen : Nat) (n : Node) : Node :=
  (((s.visit n).run ⟨seen, 0, 0⟩).run t).1.1.getD n

/-- A reply, or without one the node itself, is what the node becomes. -/
theorem Expands.rewritten_eq (ht : t.WellFormed) {r : Option Node} (h : Expands s t [n] c [r] c') :
    s.rewritten t c.imports n = r.getD n := by
  have hvisit := (follows_visit s t n ⟨c.imports, 0, 0⟩ t (.refl t)).1
  obtain ⟨hreplies, -⟩ := hvisit.functional ht h rfl
  exact congrArg (Option.getD · n) (List.cons.inj hreplies).1

/-! ### Calls to be expanded -/

/-- The calls to be expanded among nodes, each with the number of imports of the marker before it, so
many having been met before the first node. -/
def sites (s : Scope) (t : TypeTable) : Nat → List Node → List (Nat × Node)
  | _, [] => []
  | seen, n :: ns =>
    if s.program.isMarkerImport s.file n then s.sites t (seen + 1) ns
    else if s.program.isExpandable t s.file n then (seen, n) :: s.sites t seen ns
    else s.sites t seen ns

/-- The call on the support module that takes the place of a call to be expanded: its payload, the
paths, and its options if it has any, with what the payload and the options become.  The paths are
those inside the type that the first type argument resolves to under all array types, and there are
none if it resolves to nothing. -/
def replacement (s : Scope) (t : TypeTable) : Nat × Node → Node
  | (seen, .call _ _ (type :: _) (payload :: options)) =>
    .plainCall (.propertyAccess (.identifier s.binding) s.program.config.support.function)
      (s.rewritten t seen payload ::
        ((t.pathsOf? s.program.config.timestamp [] type.unwrapArrays).getD []).literal ::
        (options.take 1).map (s.rewritten t (seen +
          (s.program.reached t s.file payload).countP (s.program.isMarkerImport s.file))))
  | (_, n) => n

theorem sites_cons_import (h : s.program.isMarkerImport s.file n = true) (seen : Nat)
    (ns : List Node) : s.sites t seen (n :: ns) = s.sites t (seen + 1) ns := by
  rw [sites, if_pos h]

theorem sites_cons_call (h : s.program.isExpandable t s.file n = true) (seen : Nat)
    (ns : List Node) : s.sites t seen (n :: ns) = (seen, n) :: s.sites t seen ns := by
  have himport := Program.isMarkerImport_of_isExpandable h
  rw [sites, himport, if_neg Bool.false_ne_true, if_pos h]

theorem sites_cons_keep (himport : s.program.isMarkerImport s.file n = false)
    (hcall : s.program.isExpandable t s.file n = false) (seen : Nat) (ns : List Node) :
    s.sites t seen (n :: ns) = s.sites t seen ns := by
  rw [sites, himport, hcall, if_neg Bool.false_ne_true, if_neg Bool.false_ne_true]

theorem sites_append (seen : Nat) (ns ms : List Node) : s.sites t seen (ns ++ ms) =
    s.sites t seen ns ++
      s.sites t (seen + ns.countP (s.program.isMarkerImport s.file)) ms := by
  induction ns generalizing seen with
  | nil => rfl
  | cons n ns ih =>
    rw [List.cons_append, List.countP_cons]
    cases himport : s.program.isMarkerImport s.file n with
    | true =>
      rw [sites_cons_import himport, sites_cons_import himport, ih, if_pos rfl, Nat.add_assoc,
        Nat.add_comm 1]
    | false =>
      rw [if_neg Bool.false_ne_true, Nat.add_zero]
      cases hcall : s.program.isExpandable t s.file n with
      | true => rw [sites_cons_call hcall, sites_cons_call hcall, ih, List.cons_append]
      | false => rw [sites_cons_keep himport hcall, sites_cons_keep himport hcall, ih]

/-- The sites are the calls to be expanded, in order. -/
theorem map_snd_sites (seen : Nat) (ns : List Node) :
    (s.sites t seen ns).map Prod.snd = ns.filter (s.program.isExpandable t s.file) := by
  induction ns generalizing seen with
  | nil => rfl
  | cons n ns ih =>
    rw [List.filter_cons]
    cases hcall : s.program.isExpandable t s.file n with
    | true => rw [sites_cons_call hcall, List.map_cons, ih, if_pos rfl]
    | false =>
      rw [if_neg Bool.false_ne_true]
      cases himport : s.program.isMarkerImport s.file n with
      | true => rw [sites_cons_import himport, ih]
      | false => rw [sites_cons_keep himport hcall, ih]

theorem Expands.imports_eq (h : Expands s t ns c rs c') : c'.imports = c.imports +
    (ns.flatMap (s.program.reached t s.file)).countP (s.program.isMarkerImport s.file) := by
  rw [h.tally_eq]
  rfl

/-- Where there are no imports of the marker, none is found. -/
theorem Expands.imports_eq_of_no_import (h : Expands s t ns c rs c')
    (hno : Node.Everywhere (fun m => s.program.isMarkerImport s.file m = false) ns) :
    c'.imports = c.imports := by
  have hcount : (ns.flatMap (s.program.reached t s.file)).countP
      (s.program.isMarkerImport s.file) = 0 := by
    rw [List.countP_eq_zero]
    intro m hm
    obtain ⟨n, hn, hm⟩ := List.mem_flatMap.1 hm
    exact Bool.eq_false_iff.1 (hno n hn m (Program.mem_subtree_of_mem_reached hm))
  rw [h.imports_eq, hcount, Nat.add_zero]

/-- A call to be expanded has a type argument and a payload. -/
theorem exists_eq_call {type : TypeExpr} (h : s.payloadType? t n = some type) :
    ∃ id callee types payload options,
      n = .call id callee (type :: types) (payload :: options) := by
  cases n with
  | call id callee typeArgs args =>
    match typeArgs, args with
    | [], _ => cases h
    | _ :: _, [] => cases h
    | e :: types, payload :: options =>
      rw [payloadType?] at h
      split at h
      · cases h
        exact ⟨id, callee, types, payload, options, rfl⟩
      · cases h
  | _ => cases h

theorem keptArgs_call (id : CallId) (callee : Node) (typeArgs : List TypeExpr) (args : List Node) :
    (Node.call id callee typeArgs args).keptArgs = args.take 2 := by
  show (((args.map Node.Slot.fixed).map Node.Slot.child).take 2) = args.take 2
  rw [Node.map_child_fixed]

/-- The rule for calls of the marker puts the replacement in their place. -/
theorem Expands.replacement_eq (ht : t.WellFormed) {type : TypeExpr} {found : FieldPaths}
    (hcall : s.payloadType? t n = some type) (hfound : s.Finds t type found)
    (hargs : Expands s t n.keptArgs c rs c') : s.replacement t (c.imports, n) =
      s.expandedCall found (Node.keptChildren (n.keptArgs.map .fixed) rs) := by
  obtain ⟨id, callee, types, payload, options, rfl⟩ := exists_eq_call hcall
  rw [keptArgs_call, List.take_succ_cons] at hargs ⊢
  obtain ⟨r, rest, c₁, rfl, hpayload, hoptions⟩ := hargs.cons_inv
  -- imports inside the payload come before those inside the options
  have himports : c₁.imports = c.imports +
      (s.program.reached t s.file payload).countP (s.program.isMarkerImport s.file) := by
    rw [hpayload.imports_eq, List.flatMap_singleton]
  have hkept : Node.keptChildren ((options.take 1).map .fixed) rest =
      (options.take 1).map (s.rewritten t c₁.imports) := by
    cases options with
    | nil => rfl
    | cons o options =>
      rw [List.take_succ_cons, List.take_zero] at hoptions ⊢
      obtain ⟨r', rest', c₂, rfl, ho, -⟩ := hoptions.cons_inv
      rw [List.map_singleton, List.map_singleton, ho.rewritten_eq ht, Node.keptChildren_cons,
        Node.kept_fixed]
      rfl
  rw [List.map_cons, Node.keptChildren_cons, Node.kept_fixed, hkept, himports, hfound.eq ht,
    ← hpayload.rewritten_eq ht]
  rfl

/-! ### No call is left -/

/-- A kept call can be expanded just when the call it was could. -/
theorem isExpandable_withReplies {ks : List (Option Node)}
    (h : List.Forall₂ (fun c r => (Option.getD r c).chain? = c.chain?) n.children ks) :
    s.program.isExpandable t s.file (n.withReplies ks) = s.program.isExpandable t s.file n := by
  cases n with
  | call id callee typeArgs args =>
    rw [Node.withReplies_call]
    cases h with
    | @cons _ r _ ks hr hrest =>
      rw [Node.child_fixed] at hr
      have hname : (Option.getD r callee).dottedName? = callee.dottedName? := by
        rw [Node.dottedName?_eq, Node.dottedName?_eq, hr]
      have hkey : TypeTable.callKey? id (Option.getD r callee) = TypeTable.callKey? id callee := by
        rw [TypeTable.callKey?, TypeTable.callKey?, hname]
      -- all arguments stay, so the call keeps a payload if it had one
      have hlen := Node.length_keptChildren_fixed args ks
      show s.program.isExpandable t s.file (.call id (Option.getD r callee) typeArgs
        (Node.keptChildren (args.map .fixed) ks)) = _
      generalize Node.keptChildren (args.map .fixed) ks = args' at hlen
      match typeArgs, args, args' with
      | [], _, _ => rfl
      | _ :: _, [], [] => rfl
      | _ :: _, [], _ :: _ => cases hlen
      | _ :: _, _ :: _, [] => cases hlen
      | _ :: _, _ :: _, _ :: _ =>
        rw [Program.isExpandable, Program.isExpandable, Program.isMarkerCall, Program.isMarkerCall,
          TypeTable.declarationOf?, TypeTable.declarationOf?, hkey]
  | _ => rfl

/-- No call to be expanded is left. -/
theorem Expands.gathered_isExpandable (h : Expands s t ns c rs c') :
    gathered (s.program.isExpandable t s.file) rs = [] := by
  have hplain : Plain (s.program.isExpandable t s.file) :=
    ⟨fun _ _ => rfl, fun _ => rfl, fun _ => rfl⟩
  induction h with
  | nil => rfl
  | load _ _ _ ih =>
    rw [gathered_some, ih, filter_subtree_loadStatement]
    rfl
  | repeated _ _ _ ih => exact ih
  | call _ _ hargs _ ihargs ih =>
    rw [gathered_some, hargs.filter_subtree_expandedCall hplain.array hplain.string
      (fun _ _ => hplain.of_isMarkerImport), ihargs, ih]
    rfl
  | keep _ hcall hbelow _ ihbelow ih =>
    have hnot := not_isExpandable_of_payloadType? hcall
    rw [gathered_some, hbelow.filter_subtree_withReplies (fun _ _ _ => hplain.of_isMarkerImport),
      ihbelow, ih, List.filter_singleton, isExpandable_withReplies hbelow.chains, hnot]
    rfl

end Scope

/-! ### Calls on the support module -/

/-- The node calls a property of a plain name. -/
def Node.callsOn (name : String) : Node → Bool
  | .call _ (.propertyAccess (.identifier n) _) _ _ => n == name
  | _ => false

theorem Node.exists_chain?_of_callsOn {name : String} {id : CallId} {callee : Node}
    {typeArgs : List TypeExpr} {args : List Node}
    (h : (call id callee typeArgs args).callsOn name = true) :
    ∃ names, callee.chain? = some (name, names) := by
  rw [callsOn.eq_def] at h
  split at h
  · rename_i target property _ _ heq
    cases heq
    exact ⟨[property], by rw [← eq_of_beq h]; rfl⟩
  · cases h

namespace Scope

variable {s : Scope} {t : TypeTable} {n : Node} {ns : List Node} {c c' : Tally}
  {rs : List (Option Node)}

/-- A kept call is no call on the support module. -/
theorem callsOn_withReplies {ks : List (Option Node)} (hunused : s.Unused (n :: ns))
    (h : List.Forall₂ (fun c r => (Option.getD r c).chain? = c.chain?) n.children ks) :
    (n.withReplies ks).callsOn s.binding = false := by
  cases n with
  | call id callee typeArgs args =>
    rw [Node.withReplies_call]
    cases h with
    | @cons _ r _ ks hr _ =>
      rw [Node.child_fixed] at hr
      rw [← Bool.not_eq_true]
      intro hcalls
      obtain ⟨names, hchain⟩ := Node.exists_chain?_of_callsOn hcalls
      have hmem := Node.identifier_mem_of_chain? (hr.symm.trans hchain)
      exact hunused.children callee List.mem_cons_self _ hmem List.mem_cons_self
  | _ => rfl

/-- The calls on the support module are the replacements of the calls to be expanded, in order. -/
theorem Expands.gathered_callsOn (ht : t.WellFormed) (h : Expands s t ns c rs c')
    (hunused : s.Unused ns) : gathered (Node.callsOn s.binding) rs =
      (s.sites t c.imports (ns.flatMap (s.program.reached t s.file))).map (s.replacement t) := by
  have hplain : Plain (Node.callsOn s.binding) := ⟨fun _ _ => rfl, fun _ => rfl, fun _ => rfl⟩
  induction h with
  | nil => rfl
  | load himport hfirst hrest ih =>
    rw [gathered_some, filter_subtree_loadStatement, ih hunused.tail, List.flatMap_cons,
      Program.reached_of_isMarkerImport himport, List.singleton_append, sites_cons_import himport]
    rfl
  | repeated himport hlater hrest ih =>
    rw [gathered_none, ih hunused.tail, List.flatMap_cons,
      Program.reached_of_isMarkerImport himport, List.singleton_append, sites_cons_import himport]
    rfl
  | @call n ns c c₁ c' ks rs type found hcall hfound hargs hrest ihargs ih =>
    -- the call itself comes first, and then the calls inside its arguments
    have hexp := isExpandable_of_payloadType? hcall
    have hcalled : [s.expandedCall found (Node.keptChildren (n.keptArgs.map .fixed) ks),
        .propertyAccess (.identifier s.binding) s.program.config.support.function,
        .identifier s.binding].filter (Node.callsOn s.binding) =
          [s.expandedCall found (Node.keptChildren (n.keptArgs.map .fixed) ks)] := by
      simp [expandedCall, supportCall, Node.plainCall, Node.callsOn]
    rw [gathered_some, hargs.filter_subtree_expandedCall hplain.array hplain.string
      (fun _ _ => hplain.of_isMarkerImport), hcalled, ihargs hunused.keptArgs, ih hunused.tail,
      List.flatMap_cons, Program.reached_of_isExpandable hexp, List.singleton_append,
      List.cons_append, List.cons_append, sites_cons_call hexp, sites_append, List.map_cons,
      List.map_append, hargs.replacement_eq ht hcall hfound, ← hargs.imports_eq]
    rfl
  | @keep n ns c c₁ c' ks rs himport hcall hbelow hrest ihbelow ih =>
    have hexp := not_isExpandable_of_payloadType? hcall
    have hbetween := hbelow.imports_eq
    rw [imports_meet] at hbetween
    rw [gathered_some, hbelow.filter_subtree_withReplies (fun _ _ _ => hplain.of_isMarkerImport),
      List.filter_singleton, callsOn_withReplies hunused hbelow.chains, ihbelow hunused.children,
      ih hunused.tail, List.flatMap_cons, Program.reached_of_not_isExpandable hexp,
      List.cons_append, sites_cons_keep himport hexp, sites_append, List.map_append, imports_meet,
      ← hbetween]
    rfl

end Scope

/-! ### Units -/

section Units

variable {p : Program} {u : SourceUnit} {t : TypeTable} {e : Expansion} {rs : List (Option Node)}

/-- No call to be expanded is left in an expanded unit. -/
theorem Derived.not_isExpandable (h : Derived p u t e rs) {n : Node} (hn : n ∈ e.unit.nodes) :
    p.isExpandable t u.path n = false := by
  have hload : (p.scope u).loadStatement.subtree.filter (p.isExpandable t u.path) = [] := rfl
  have hnone : e.unit.nodes.filter (p.isExpandable t u.path) = [] := by
    rw [h.filter_nodes, hload, ite_self, List.nil_append]
    exact h.expands.gathered_isExpandable
  exact Bool.eq_false_iff.2 (List.filter_eq_nil_iff.1 hnone n hn)

theorem Derived.calls_eq (h : Derived p u t e rs) : e.tally.calls =
    (u.statements.flatMap (p.reached t u.path)).countP (p.isExpandable t u.path) := by
  rw [h.expands.tally_eq]
  exact Nat.zero_add _

theorem Derived.imports_eq (h : Derived p u t e rs) : e.tally.imports =
    (u.statements.flatMap (p.reached t u.path)).countP (p.isMarkerImport u.path) := by
  rw [h.expands.imports_eq]
  exact Nat.zero_add _

theorem Derived.filter_callsOn (h : Derived p u t e rs) (ht : t.WellFormed) :
    e.unit.nodes.filter (Node.callsOn e.binding) =
      ((p.scope u).sites t 0 (u.statements.flatMap (p.reached t u.path))).map
        ((p.scope u).replacement t) := by
  have hload : (p.scope u).loadStatement.subtree.filter (Node.callsOn (p.scope u).binding) = [] :=
    rfl
  rw [h.binding, h.filter_nodes, hload, ite_self, List.nil_append]
  exact h.expands.gathered_callsOn ht (p.unused_scope u)

end Units

/-- In an expanded unit no call is left that could be expanded.  The number of expanded calls is that
of the calls of the unit that can be expanded and do not stand inside the callee or inside the third
or a later argument of another one.  These are the sites, in source order, and the calls on the
support module are their replacements, in the same order, with the paths that the type arguments have
on this table. -/
theorem Program.expand_calls (p : Program) (u : SourceUnit)
    (ops : List TypeTable.Operation) :
    let t := TypeTable.ofOperations ops
    let e := ((p.expand u).run t).1
    let visited := u.statements.flatMap (p.reached t u.path)
    let sites := (p.scope u).sites t 0 visited
    (∀ n ∈ e.unit.nodes, p.isExpandable t u.path n = false) ∧
    e.tally.calls = visited.countP (p.isExpandable t u.path) ∧
    sites.map Prod.snd = visited.filter (p.isExpandable t u.path) ∧
    e.unit.nodes.filter (Node.callsOn e.binding) = sites.map ((p.scope u).replacement t) := by
  intro t e visited sites
  have ht : t.WellFormed := TypeTable.wellFormed_ofOperations ops
  obtain ⟨rs, h⟩ : ∃ rs, Derived p u t e rs := p.expand_derived u t
  exact ⟨fun n hn => h.not_isExpandable hn, h.calls_eq, Scope.map_snd_sites 0 visited,
    h.filter_callsOn ht⟩

end DateFields
