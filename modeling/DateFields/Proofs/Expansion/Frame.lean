import DateFields.Proofs.Expansion.Idempotence

/-!
# What an expansion leaves alone

An expansion changes a unit exactly when it has found something, and then only the statements in
which there is something to expand.

* `Scope.Becomes` — what may come of a statement;
* `Expands.becomes` — statements become, one by one and in their order, what the rules make of them;
* `Derived.changed_iff` — nothing has been found just when the unit has stayed as it was;
* `Program.expand_frame` — both for a unit, with the one statement that no statement has become.
-/

namespace DateFields

namespace Scope

variable {s : Scope} {t : TypeTable} {n : Node} {ns : List Node} {c c' : Tally}
  {r : Option Node} {rs : List (Option Node)}

/-! ### Single statements -/

/-- What may come of a statement. -/
structure Becomes (s : Scope) (t : TypeTable) (n : Node) (r : Option Node) : Prop where
  /-- A statement with no import of the marker and no call to be expanded in it stays as it is. -/
  untouched : (∀ m ∈ n.subtree, s.program.isMarkerImport s.file m = false ∧
    s.program.isExpandable t s.file m = false) → r = some n
  /-- Only an import of the marker is left out. -/
  leftOut : r = none → s.program.isMarkerImport s.file n = true
  /-- What stays is the loading of the module for an import of the marker, a call of the support
  function for a call to be expanded, and else the statement itself with other children. -/
  kept : ∀ m, r = some m →
    (s.program.isMarkerImport s.file n = true ∧ m = s.loadStatement) ∨
    (s.program.isExpandable t s.file n = true ∧ ∃ args, m = s.supportCall args) ∨
    (s.program.isMarkerImport s.file n = false ∧ s.program.isExpandable t s.file n = false ∧
      ∃ replies, m = n.withReplies replies)

theorem Expands.becomes_singleton (h : Expands s t [n] c [r] c') : s.Becomes t n r := by
  constructor
  case untouched =>
    intro hinert
    have hreplies := h.of_inert fun m hm => by rwa [List.mem_singleton.1 hm]
    exact (List.cons.inj hreplies).1
  case leftOut => exact (List.forall₂_cons.1 h.aligned).1
  case kept =>
    rintro m rfl
    cases h with
    | load himport _ _ => exact .inl ⟨himport, rfl⟩
    | call hcall _ _ _ => exact .inr (.inl ⟨isExpandable_of_payloadType? hcall, _, rfl⟩)
    | keep himport hcall _ _ =>
      exact .inr (.inr ⟨himport, not_isExpandable_of_payloadType? hcall, _, rfl⟩)

/-- Statements become, one by one and in their order, what the rules make of them. -/
theorem Expands.becomes (h : Expands s t ns c rs c') : List.Forall₂ (s.Becomes t) ns rs := by
  induction ns generalizing c rs with
  | nil =>
    cases h
    exact .nil
  | cons n ns ih =>
    obtain ⟨r, rest, c₁, rfl, hn, hns⟩ := h.cons_inv
    exact .cons hn.becomes_singleton (ih hns)

end Scope

/-! ### Units -/

section Units

variable {p : Program} {u : SourceUnit} {t : TypeTable} {e : Expansion} {rs : List (Option Node)}

theorem Expansion.changed_eq_false_iff :
    e.changed = false ↔ e.tally.imports = 0 ∧ e.tally.calls = 0 := by
  simp [Expansion.changed]

/-- When nothing has been found, there is nothing to expand anywhere in the unit. -/
theorem Derived.inert (h : Derived p u t e rs) (himports : e.tally.imports = 0)
    (hcalls : e.tally.calls = 0) : (p.scope u).Inert t u.statements := by
  rw [h.imports_eq, List.countP_eq_zero] at himports
  rw [h.calls_eq, List.countP_eq_zero] at hcalls
  intro n hn m hm
  have hvisited : ∀ m ∈ p.reached t u.path n, m ∈ u.statements.flatMap (p.reached t u.path) :=
    fun m hm => List.mem_flatMap.2 ⟨n, hn, hm⟩
  -- no call drops its callee, so that everything below the statement has been visited
  have hall : p.reached t u.path n = n.subtree :=
    Program.reached_eq_subtree fun m hm => Bool.eq_false_iff.2 (hcalls m (hvisited m hm))
  rw [← hall] at hm
  exact ⟨Bool.eq_false_iff.2 (himports m (hvisited m hm)),
    Bool.eq_false_iff.2 (hcalls m (hvisited m hm))⟩

/-- Nothing has been found just when the unit has stayed as it was. -/
theorem Derived.changed_iff (h : Derived p u t e rs) : e.changed = false ↔ e.unit = u := by
  rw [Expansion.changed_eq_false_iff]
  constructor
  · intro ⟨himports, hcalls⟩
    exact (h.unit_eq (h.inert himports hcalls)).2.2
  · intro hunit
    -- whatever has been found, the module is loaded, and the unit did not declare its name before
    have hbefore : u.nodes.filter (Node.declares e.binding) = [] := by
      rw [List.filter_eq_nil_iff, h.binding]
      intro n hn hdeclares
      obtain ⟨m, hm, hn⟩ := List.mem_flatMap.1 hn
      exact p.unused_scope u m hm n hn (Node.mem_ownNames_of_declares hdeclares)
    have hafter := h.filter_declares
    rw [hunit, hbefore] at hafter
    by_cases hfound : 0 < e.tally.imports ∨ 0 < e.tally.calls
    · rw [if_pos hfound] at hafter
      cases hafter
    · omega

end Units

/-- A unit is unchanged exactly when its expansion says so.  Its statements become statements of the
expanded unit one by one, in the same order; those with nothing to expand in them stay as they are,
and only imports of the marker are left out.  The one statement of the expanded unit that no
statement has become loads the support module; it stands in front, just when calls have been
expanded and no import of the marker has been found. -/
theorem Program.expand_frame (p : Program) (u : SourceUnit) (types : TypeTable) :
    let e := ((p.expand u).run types).1
    (e.changed = false ↔ e.unit = u) ∧
    ∃ replies : List (Option Node),
      List.Forall₂ ((p.scope u).Becomes types) u.statements replies ∧
      e.unit.statements = (if 0 < e.tally.calls ∧ e.tally.imports = 0 then
        [(p.scope u).loadStatement] else []) ++ replies.reduceOption := by
  intro e
  obtain ⟨rs, h⟩ : ∃ rs, Derived p u types e rs := p.expand_derived u types
  refine ⟨h.changed_iff, rs, h.expands.becomes, ?_⟩
  have hreplies : rs.reduceOption = rs.filterMap id := rfl
  rw [h.statements, hreplies]
  simp

end DateFields
