import DateFields.Proofs.Expansion.Correspondence

/-!
# Expanding twice

An expanded unit has no call left to expand.  When the imports of the marker all stand in lists, it
has no import of the marker left either, and a second expansion leaves it as it is.

* `Expands.of_inert` — nodes with nothing to expand stay as they are;
* `Listed`, `Expands.gathered_isMarkerImport` — imports of the marker that stand in lists are all
  replaced or left out;
* `Program.expand_expand` — the second expansion of a unit.
-/

namespace DateFields

namespace Scope

variable {s : Scope} {t : TypeTable} {n : Node} {ns : List Node} {c c' : Tally}
  {rs : List (Option Node)}

/-! ### Nothing to expand -/

/-- Among the nodes and below them there is no import of the marker and no call to be expanded. -/
def Inert (s : Scope) (t : TypeTable) (ns : List Node) : Prop :=
  Node.Everywhere (fun m => s.program.isMarkerImport s.file m = false ∧
    s.program.isExpandable t s.file m = false) ns

/-- Nodes with nothing to expand stay as they are. -/
theorem Expands.of_inert (h : Expands s t ns c rs c') (hinert : s.Inert t ns) :
    rs = ns.map some := by
  induction h with
  | nil => rfl
  | @load n ns _ _ _ himport =>
    have hnone := hinert.head.1
    rw [himport] at hnone
    cases hnone
  | @repeated n ns _ _ _ himport =>
    have hnone := hinert.head.1
    rw [himport] at hnone
    cases hnone
  | @call n ns _ _ _ _ _ _ _ hcall =>
    have hnone := hinert.head.2
    rw [isExpandable_of_payloadType? hcall] at hnone
    cases hnone
  | keep _ _ _ _ ihbelow ih =>
    rw [ihbelow hinert.children, ih hinert.tail, Node.withReplies_map_some, List.map_cons]

/-! ### Imports in lists -/

/-- Every import of the marker that stands below one of the nodes stands in a list. -/
def Listed (s : Scope) (ns : List Node) : Prop :=
  Node.Everywhere (fun m => ∀ slot ∈ m.slots,
    s.program.isMarkerImport s.file slot.child = true → slot.inList = true) ns

/-- No import of the marker is an argument of a call. -/
theorem Listed.not_isMarkerImport (h : s.Listed (n :: ns)) {type : TypeExpr}
    (hcall : s.payloadType? t n = some type) {a : Node} (ha : a ∈ n.keptArgs) :
    s.program.isMarkerImport s.file a = false := by
  obtain ⟨id, callee, types, payload, options, rfl⟩ := exists_eq_call hcall
  rw [keptArgs_call] at ha
  have hslot : Node.Slot.fixed a ∈
      (Node.call id callee (type :: types) (payload :: options)).slots :=
    List.mem_cons_of_mem _ (List.mem_map_of_mem (List.mem_of_mem_take ha))
  rw [← Bool.not_eq_true]
  intro himport
  have hlist := h.head _ hslot himport
  cases hlist

theorem isMarkerImport_withReplies (n : Node) (ks : List (Option Node)) :
    s.program.isMarkerImport s.file (n.withReplies ks) = s.program.isMarkerImport s.file n := by
  cases n <;> rfl

/-- Imports of the marker that stand in lists are all gone. -/
theorem Expands.gathered_isMarkerImport (h : Expands s t ns c rs c') (hlisted : s.Listed ns) :
    gathered (s.program.isMarkerImport s.file) rs = [] := by
  induction h with
  | nil => rfl
  | load _ _ _ ih =>
    rw [gathered_some, ih hlisted.tail, filter_subtree_loadStatement]
    rfl
  | repeated _ _ _ ih => exact ih hlisted.tail
  | call hcall _ hargs _ ihargs ih =>
    rw [gathered_some, hargs.filter_subtree_expandedCall (fun _ => rfl) (fun _ => rfl)
      (fun _ ha _ => hlisted.not_isMarkerImport hcall ha), ihargs hlisted.keptArgs,
      ih hlisted.tail]
    rfl
  | @keep n _ _ _ _ ks _ himport _ hbelow _ ihbelow ih =>
    -- an import that stands in a list does not stay for want of a reply
    have hfixed : ∀ slot ∈ n.slots, slot.inList = false →
        s.program.isMarkerImport s.file slot.child = true →
          s.program.isMarkerImport s.file slot.child = false := by
      intro slot hslot hnot hchild
      have hlist := hlisted.head slot hslot hchild
      rw [hnot] at hlist
      cases hlist
    rw [gathered_some, hbelow.filter_subtree_withReplies hfixed, ihbelow hlisted.children,
      ih hlisted.tail, List.filter_singleton, isMarkerImport_withReplies, himport]
    rfl

end Scope

/-! ### Units -/

section Units

variable {p : Program} {u : SourceUnit} {t : TypeTable} {e : Expansion} {rs : List (Option Node)}

/-- No import of the marker is left in an expanded unit when they all stood in lists. -/
theorem Derived.not_isMarkerImport (h : Derived p u t e rs)
    (hlisted : (p.scope u).Listed u.statements) {n : Node} (hn : n ∈ e.unit.nodes) :
    p.isMarkerImport u.path n = false := by
  have hload : (p.scope u).loadStatement.subtree.filter (p.isMarkerImport u.path) = [] := rfl
  have hnone : e.unit.nodes.filter (p.isMarkerImport u.path) = [] := by
    rw [h.filter_nodes, hload, ite_self, List.nil_append]
    exact h.expands.gathered_isMarkerImport hlisted
  exact Bool.eq_false_iff.2 (List.filter_eq_nil_iff.1 hnone n hn)

/-- What is visited is in the unit. -/
theorem mem_nodes_of_mem_reached {n : Node}
    (h : n ∈ u.statements.flatMap (p.reached t u.path)) : n ∈ u.nodes := by
  obtain ⟨m, hm, hn⟩ := List.mem_flatMap.1 h
  exact List.mem_flatMap.2 ⟨m, hm, Program.mem_subtree_of_mem_reached hn⟩

/-- A unit with nothing to expand stays as it is. -/
theorem Derived.unit_eq (h : Derived p u t e rs) (hinert : (p.scope u).Inert t u.statements) :
    e.tally.imports = 0 ∧ e.tally.calls = 0 ∧ e.unit = u := by
  have himports : e.tally.imports = 0 :=
    h.expands.imports_eq_of_no_import fun n hn m hm => (hinert n hn m hm).1
  have hcalls : e.tally.calls = 0 := by
    rw [h.calls_eq, List.countP_eq_zero]
    intro m hm
    obtain ⟨n, hn, hm⟩ := List.mem_flatMap.1 hm
    exact Bool.eq_false_iff.1 (hinert n hn m (Program.mem_subtree_of_mem_reached hm)).2
  have hstatements : e.unit.statements = u.statements := by
    rw [h.statements, h.expands.of_inert hinert, hcalls]
    simp
  refine ⟨himports, hcalls, ?_⟩
  obtain ⟨⟨path, statements⟩, binding, tally⟩ := e
  obtain ⟨path', statements'⟩ := u
  exact congr (congrArg SourceUnit.mk h.path) hstatements

end Units

/-- An expanded unit is expanded again, with the types that the first expansion has left.  No call is
expanded.  If all imports of the marker in the unit stand in lists, no import is found, and the unit
stays as it is. -/
theorem Program.expand_expand (p : Program) (u : SourceUnit) (types : TypeTable) :
    let first := (p.expand u).run types
    let second := (p.expand first.1.unit).run first.2
    second.1.tally.calls = 0 ∧
    ((∀ n ∈ u.nodes, ∀ slot ∈ n.slots, p.isMarkerImport u.path slot.child = true →
        slot.inList = true) →
      second.1.tally.imports = 0 ∧ second.1.unit = first.1.unit) := by
  intro first second
  have hfirst : ∃ rs, Derived p u types first.1 rs := p.expand_derived u types
  have hsecond : ∃ rs, Derived p first.1.unit first.2 second.1 rs := p.expand_derived _ _
  have hlater : types.Later first.2 := p.later_expand u types
  clear_value second first
  obtain ⟨rs, hfirst⟩ := hfirst
  obtain ⟨rs', hsecond⟩ := hsecond
  -- the table has grown in between, but it binds the same calls
  have hcall : ∀ n ∈ first.1.unit.nodes,
      p.isExpandable first.2 first.1.unit.path n = false := by
    intro n hn
    rw [hfirst.path, isExpandable_congr hlater.extend.bindings]
    exact hfirst.not_isExpandable hn
  constructor
  · rw [hsecond.calls_eq, List.countP_eq_zero]
    intro n hn
    rw [hcall n (mem_nodes_of_mem_reached hn)]
    exact Bool.false_ne_true
  · intro hlisted
    have hlisted : (p.scope u).Listed u.statements := fun n hn m hm =>
      hlisted m (List.mem_flatMap.2 ⟨n, hn, hm⟩)
    have hinert : (p.scope first.1.unit).Inert first.2 first.1.unit.statements := by
      intro n hn m hm
      have hmem : m ∈ first.1.unit.nodes := List.mem_flatMap.2 ⟨n, hn, hm⟩
      refine ⟨?_, hcall m hmem⟩
      show p.isMarkerImport first.1.unit.path m = false
      rw [hfirst.path]
      exact hfirst.not_isMarkerImport hlisted hmem
    obtain ⟨himports, -, hunit⟩ := hsecond.unit_eq hinert
    exact ⟨himports, hunit⟩

/-- A unit with two imports of the marker, one of them in a block, is stable once expanded. -/
theorem Program.expand_expand_of_two_imports :
    let p : Program := ⟨.empty, .hosted fun _ _ => some ⟨"/m/index.js"⟩,
      .ofMarker ⟨⟨"/m/index.js"⟩, ⟨"/m/index.d.ts"⟩, Marker.standardFunction⟩⟩
    let u : SourceUnit := ⟨⟨"/a.ts"⟩, [.importDecl none "m", .block [.importDecl none "m"]]⟩
    let first := (p.expand u).run .new
    let second := (p.expand first.1.unit).run first.2
    u.nodes.countP (p.isMarkerImport u.path) = 2 ∧
    (∀ n ∈ u.nodes, ∀ slot ∈ n.slots, p.isMarkerImport u.path slot.child = true →
      slot.inList = true) ∧
    second.1.tally.imports = 0 ∧ second.1.unit = first.1.unit := by
  intro p u
  have hnodes : u.nodes = [.importDecl none "m", .block [.importDecl none "m"],
    .importDecl none "m"] := rfl
  have himport : p.isMarkerImport u.path (.importDecl none "m") = true := by
    simp [p, Program.isMarkerImport, Modules.Lookup.resolve, FileTree.sameFile, Config.ofMarker]
  have hcount : u.nodes.countP (p.isMarkerImport u.path) = 2 := by
    have hblock : p.isMarkerImport u.path (.block [.importDecl none "m"]) = false := rfl
    rw [hnodes]
    simp [himport, hblock]
  have hlisted : ∀ n ∈ u.nodes, ∀ slot ∈ n.slots, p.isMarkerImport u.path slot.child = true →
      slot.inList = true := by
    intro n hn slot hslot _
    rw [hnodes] at hn
    simp only [List.mem_cons, List.not_mem_nil, or_false] at hn
    obtain rfl | rfl | rfl := hn
    · cases hslot
    · rw [List.mem_singleton.1 hslot]
      rfl
    · cases hslot
  have hstable := Program.expand_expand p u .new
  exact ⟨hcount, hlisted, hstable.2 hlisted⟩

end DateFields
