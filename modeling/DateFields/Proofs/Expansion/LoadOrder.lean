import DateFields.Proofs.Expansion.Frame
import Mathlib.Data.List.TakeWhile

/-!
# Where the support module is loaded

The support module is loaded where the first import of the marker has been, and an import may stand
behind the statements that use what it binds.  A call of the marker in front of all imports turns
into a call on a module that has not been loaded yet.

* `Node.runsInPlace` — statements that are run where they stand;
* `PrecedesUses` — a statement that stands before all those that use a name in place;
* `Expands.identifier_mem_iff`, `Becomes.runsInPlace_eq` — a statement uses the support module when
  there has been a call to be expanded in it, and it is run in place when it was before;
* `Program.load_precedes_uses_iff` — the units in which the module is loaded in time.
-/

namespace DateFields

/-- The statement is run where it stands: it is an expression or a variable declaration. -/
def Node.runsInPlace : Node → Bool
  | .expression _ => true
  | .varDecl _ _ => true
  | _ => false

/-- The statement stands among others, and none of those before it is run in place and has the name
in it. -/
def PrecedesUses (load : Node) (name : String) (statements : List Node) : Prop :=
  ∃ before after, statements = before ++ load :: after ∧
    ∀ n ∈ before, n.runsInPlace = true → .identifier name ∉ n.subtree

/-- When there is no second place at which the statement stands, the statements before it decide. -/
theorem precedesUses_append_cons {load : Node} {name : String} {before after : List Node}
    (h : load ∉ before) : PrecedesUses load name (before ++ load :: after) ↔
      ∀ n ∈ before, n.runsInPlace = true → .identifier name ∉ n.subtree := by
  constructor
  · rintro ⟨before', after', heq, hbefore'⟩
    have hsub : before ⊆ before' := by
      rcases List.append_eq_append_iff.1 heq with ⟨rest, rfl, -⟩ | ⟨rest, rfl, hrest⟩
      · exact List.subset_append_left before rest
      · -- otherwise the other place would be among the first statements
        cases rest with
        | nil => simp
        | cons n rest =>
          obtain ⟨rfl, -⟩ := List.cons.inj hrest
          exact absurd (List.mem_append_right before' List.mem_cons_self) h
    intro n hn
    exact hbefore' n (hsub hn)
  · intro hbefore
    exact ⟨before, after, rfl, hbefore⟩

namespace Scope

variable {s : Scope} {t : TypeTable} {n m : Node} {ns : List Node} {c c' : Tally}
  {rs : List (Option Node)}

/-! ### Single statements -/

/-- The support module is used in a statement when there has been a call to be expanded in it. -/
theorem Expands.identifier_mem_iff (h : Expands s t [n] c [some m] c') (hunused : s.Unused [n])
    (hrequire : s.binding ≠ "require") : .identifier s.binding ∈ m.subtree ↔
      ∃ x ∈ n.subtree, s.program.isExpandable t s.file x = true := by
  -- the name is there as often as calls have been expanded
  have hcount : (m.subtree.filter (Node.isNamed s.binding)).length =
      (s.program.reached t s.file n).countP (s.program.isExpandable t s.file) := by
    have hnamed := h.length_gathered_isNamed hunused hrequire
    have hcalls : c'.calls = c.calls + ([n].flatMap (s.program.reached t s.file)).countP
        (s.program.isExpandable t s.file) := by
      rw [h.tally_eq]
      rfl
    rw [gathered_some, gathered_nil, List.append_nil, hcalls] at hnamed
    simpa using hnamed
  have hname : .identifier s.binding ∈ m.subtree ↔
      0 < (m.subtree.filter (Node.isNamed s.binding)).length := by
    rw [List.length_pos_iff_exists_mem]
    constructor
    · intro hmem
      exact ⟨_, List.mem_filter.2 ⟨hmem, beq_self_eq_true s.binding⟩⟩
    · rintro ⟨x, hx⟩
      obtain ⟨hx, hnamed⟩ := List.mem_filter.1 hx
      cases x with
      | identifier name => rwa [← eq_of_beq hnamed]
      | _ => cases hnamed
  rw [hname, hcount, List.countP_pos_iff]
  constructor
  · rintro ⟨x, hx, hexp⟩
    exact ⟨x, Program.mem_subtree_of_mem_reached hx, hexp⟩
  · rintro ⟨x, hx, hexp⟩
    -- a call in a part that is dropped is dropped with another call to be expanded
    by_contra hnone
    have hreached : s.program.reached t s.file n = n.subtree := by
      refine Program.reached_eq_subtree fun y hy => Bool.eq_false_iff.2 fun hexp => ?_
      exact hnone ⟨y, hy, hexp⟩
    exact hnone ⟨x, hreached ▸ hx, hexp⟩

/-- A statement that stays is run in place when it was before. -/
theorem Becomes.runsInPlace_eq (h : s.Becomes t n (some m))
    (himport : s.program.isMarkerImport s.file n = false) : m.runsInPlace = n.runsInPlace := by
  rcases h.kept m rfl with ⟨hload, -⟩ | ⟨hexp, args, rfl⟩ | ⟨-, -, replies, rfl⟩
  · rw [himport] at hload
    cases hload
  · cases n with
    | call => rfl
    | _ => cases hexp
  · cases n <;> rfl

/-! ### Statements before the first import -/

/-- Among statements without imports of the marker, those that are run in place use the support
module when there has been a call to be expanded in one of them. -/
theorem Expands.not_uses_iff (h : Expands s t ns c rs c') (hunused : s.Unused ns)
    (hrequire : s.binding ≠ "require")
    (himport : ∀ n ∈ ns, s.program.isMarkerImport s.file n = false) :
    (∀ m ∈ rs.filterMap id, m.runsInPlace = true → .identifier s.binding ∉ m.subtree) ↔
      ∀ n ∈ ns, n.runsInPlace = true →
        ∀ x ∈ n.subtree, s.program.isExpandable t s.file x = false := by
  induction ns generalizing c rs with
  | nil =>
    cases h
    simp
  | cons n ns ih =>
    obtain ⟨r, rest, c₁, rfl, hn, hns⟩ := h.cons_inv
    have hbecomes := hn.becomes_singleton
    have hnot := himport n List.mem_cons_self
    -- the statement is no import, and so it stays
    cases r with
    | none =>
      have := hbecomes.leftOut rfl
      rw [hnot] at this
      cases this
    | some m =>
      have huse : .identifier s.binding ∉ m.subtree ↔
          ∀ x ∈ n.subtree, s.program.isExpandable t s.file x = false := by
        rw [hn.identifier_mem_iff (hunused.subset (by simp)) hrequire]
        simp
      have ih := ih hns hunused.tail fun k hk => himport k (List.mem_cons_of_mem n hk)
      show (∀ k ∈ m :: rest.filterMap id, _) ↔ _
      rw [List.forall_mem_cons, List.forall_mem_cons, ih, hbecomes.runsInPlace_eq hnot, huse]

/-- The statement that loads the support module is none of those that have become of statements
without imports of the marker. -/
theorem Expands.loadStatement_not_mem (h : Expands s t ns c rs c') (hunused : s.Unused ns)
    (himports : c'.imports = 0) : s.loadStatement ∉ rs.filterMap id := by
  have hnone := h.gathered_declares hunused
  rw [if_neg fun hfirst => Nat.ne_of_gt hfirst.2 himports] at hnone
  intro hmem
  obtain ⟨r, hr, rfl⟩ := List.mem_filterMap.1 hmem
  have hgathered : s.loadStatement ∈ gathered (Node.declares s.binding) rs := by
    refine List.mem_flatMap.2 ⟨_, hr, ?_⟩
    show s.loadStatement ∈ s.loadStatement.subtree.filter (Node.declares s.binding)
    rw [filter_declares_loadStatement]
    exact List.mem_singleton_self _
  rw [hnone] at hgathered
  cases hgathered

end Scope

/-! ### Units -/

section Units

variable {p : Program} {u : SourceUnit} {t : TypeTable} {e : Expansion} {rs : List (Option Node)}

/-- The first import of the marker among the statements of a unit, between those before it and the
others. -/
theorem Program.exists_first_import
    (h : ¬∀ n ∈ u.statements, p.isMarkerImport u.path n = false) :
    ∃ i after, p.isMarkerImport u.path i = true ∧
      u.statements = u.statements.takeWhile (!p.isMarkerImport u.path ·) ++ i :: after := by
  obtain ⟨i, after, hdrop⟩ : ∃ i after,
      u.statements.dropWhile (!p.isMarkerImport u.path ·) = i :: after := by
    refine List.exists_cons_of_ne_nil fun hnil => h fun n hn => ?_
    simpa using List.dropWhile_eq_nil_iff.1 hnil n hn
  refine ⟨i, after, ?_, ?_⟩
  · have hhead := List.head_dropWhile_not (!p.isMarkerImport u.path ·)
      (by rw [hdrop]; exact List.cons_ne_nil i after)
    simpa [hdrop] using hhead
  · rw [← hdrop, List.takeWhile_append_dropWhile]

/-- Without an import of the marker, the support module is loaded by the first statement. -/
theorem Derived.precedesUses_of_no_import (h : Derived p u t e rs) (himports : e.tally.imports = 0)
    (hcalls : 0 < e.tally.calls) :
    PrecedesUses (p.scope u).loadStatement e.binding e.unit.statements := by
  refine ⟨[], rs.filterMap id, ?_, by simp⟩
  rw [h.statements]
  simp [himports, hcalls]

/-- With an import of the marker among the statements, and none before it, the support module is
loaded in time when nothing before the import that is run in place has a call to be expanded in it. -/
theorem Derived.precedesUses_iff (h : Derived p u t e rs) {before after : List Node} {i : Node}
    (hu : u.statements = before ++ i :: after) (hi : p.isMarkerImport u.path i = true)
    (hbefore : Node.Everywhere (fun m => p.isMarkerImport u.path m = false) before) :
    PrecedesUses (p.scope u).loadStatement e.binding e.unit.statements ↔
      ∀ n ∈ before, n.runsInPlace = true → ∀ x ∈ n.subtree, p.isExpandable t u.path x = false := by
  have hexpands := h.expands
  have hunused : (p.scope u).Unused before :=
    (p.unused_scope u).subset (by rw [hu]; exact List.subset_append_left _ _)
  rw [hu] at hexpands
  obtain ⟨rs₁, rs₂, c, rfl, hfirst, hrest⟩ := hexpands.append_inv
  have himports : c.imports = 0 := hfirst.imports_eq_of_no_import hbefore
  -- the import loads the module, for it is the first one
  cases hrest with
  | repeated _ hlater _ => exact absurd himports hlater
  | call hcall _ _ _ =>
    have hnot := Scope.isMarkerImport_of_payloadType? hcall
    rw [show (p.scope u).program.isMarkerImport (p.scope u).file i = true from hi] at hnot
    cases hnot
  | keep hnot _ _ _ =>
    rw [show (p.scope u).program.isMarkerImport (p.scope u).file i = true from hi] at hnot
    cases hnot
  | @load _ _ _ _ rs₃ _ _ hafter =>
    have hfound : 0 < e.tally.imports := Nat.lt_of_lt_of_le (Nat.succ_pos _) hafter.imports_le
    have hstatements : e.unit.statements =
        rs₁.filterMap id ++ (p.scope u).loadStatement :: rs₃.filterMap id := by
      rw [h.statements]
      simp [Nat.ne_of_gt hfound]
    rw [hstatements, h.binding,
      precedesUses_append_cons (hfirst.loadStatement_not_mem hunused himports)]
    exact hfirst.not_uses_iff hunused (p.binding_scope_ne u) fun n hn =>
      hbefore n hn n n.self_mem_subtree

end Units

/-- In a unit whose imports of the marker are all statements of their own, and in which calls are
expanded, the statement that loads the support module stands before all expression and variable
statements that use it just when there is no import of the marker at all, or no such statement
before the first one has a call to be expanded in it. -/
theorem Program.load_precedes_uses_iff (p : Program) (u : SourceUnit) (types : TypeTable)
    (himports : ∀ n ∈ u.nodes, ∀ c ∈ n.children, p.isMarkerImport u.path c = false)
    (hcalls : 0 < ((p.expand u).run types).1.tally.calls) :
    let e := ((p.expand u).run types).1
    PrecedesUses (p.scope u).loadStatement e.binding e.unit.statements ↔
      (∀ n ∈ u.statements, p.isMarkerImport u.path n = false) ∨
      ∀ n ∈ u.statements.takeWhile (!p.isMarkerImport u.path ·), n.runsInPlace = true →
        ∀ x ∈ n.subtree, p.isExpandable types u.path x = false := by
  intro e
  obtain ⟨rs, h⟩ : ∃ rs, Derived p u types e rs := p.expand_derived u types
  -- imports are statements of their own: below a statement that is none there are none
  have hbelow : ∀ ns ⊆ u.statements, (∀ n ∈ ns, p.isMarkerImport u.path n = false) →
      Node.Everywhere (fun m => p.isMarkerImport u.path m = false) ns := by
    intro ns hns hnot n hn
    refine Node.forall_mem_subtree (hnot n hn) fun m hm => ?_
    exact himports m (List.mem_flatMap.2 ⟨n, hns hn, hm⟩)
  by_cases hnone : ∀ n ∈ u.statements, p.isMarkerImport u.path n = false
  · have hzero : e.tally.imports = 0 :=
      h.expands.imports_eq_of_no_import (hbelow _ (List.Subset.refl _) hnone)
    exact ⟨fun _ => .inl hnone, fun _ => h.precedesUses_of_no_import hzero hcalls⟩
  · obtain ⟨i, after, hi, hu⟩ := Program.exists_first_import hnone
    rw [or_iff_right hnone]
    refine h.precedesUses_iff hu hi (hbelow _ (List.takeWhile_prefix _).subset ?_)
    intro n hn
    simpa using List.mem_takeWhile_imp hn

/-! ### Imports behind calls -/

namespace Sample

/-- The marker is called in a function that is declared in front of the import, and by a statement
behind it. -/
def calledInFunction : SourceUnit :=
  ⟨⟨"/a.ts"⟩, [.function ⟨"load", false, [], none⟩ [.returnStmt (some markerCall)], markerImport,
    .expression markerCall]⟩

/-- The marker is called by a statement in front of the import. -/
def calledInPlace : SourceUnit := ⟨⟨"/a.ts"⟩, [.expression markerCall, markerImport]⟩

/-- What becomes of the statement in front of the import. -/
def expandedCall : Node :=
  .expression ((program.scope calledInPlace).supportCall
    [.identifier "raw", .array [.array [.string "at"]]])

/-- A function is not run in place: the module is loaded before the statement that uses it. -/
theorem load_precedes_uses_behind_function :
    let e := ((program.expand calledInFunction).run types).1
    (∀ n ∈ calledInFunction.nodes, ∀ c ∈ n.children,
      program.isMarkerImport calledInFunction.path c = false) ∧
    0 < e.tally.calls ∧
    PrecedesUses (program.scope calledInFunction).loadStatement e.binding e.unit.statements := by
  have himports : ∀ n ∈ calledInFunction.nodes, ∀ c ∈ n.children,
      program.isMarkerImport calledInFunction.path c = false := by
    decide +kernel
  have hcalls : 0 < ((program.expand calledInFunction).run types).1.tally.calls := by
    decide +kernel
  have hbefore : ∀ n ∈ calledInFunction.statements.takeWhile
      (!program.isMarkerImport calledInFunction.path ·), n.runsInPlace = true →
        ∀ x ∈ n.subtree, program.isExpandable types calledInFunction.path x = false := by
    decide +kernel
  have hiff := Program.load_precedes_uses_iff program calledInFunction types himports hcalls
  exact ⟨himports, hcalls, hiff.2 (.inr hbefore)⟩

/-- The statement in front of the import uses the support module before it is loaded, although all
imports are statements of their own. -/
theorem use_precedes_load :
    let e := ((program.expand calledInPlace).run types).1
    (∀ n ∈ calledInPlace.nodes, ∀ c ∈ n.children, ∀ clause specifier,
      c ≠ .importDecl clause specifier) ∧
    0 < e.tally.calls ∧
    ¬PrecedesUses (program.scope calledInPlace).loadStatement e.binding e.unit.statements := by
  have hchildren : calledInPlace.nodes.flatMap Node.children =
      [markerCall, .identifier "toDates", .identifier "raw"] := by
    rfl
  have hstatements : ((program.expand calledInPlace).run types).1.unit.statements =
      [expandedCall] ++ [(program.scope calledInPlace).loadStatement] := by
    rfl
  refine ⟨?_, by decide +kernel, ?_⟩
  · intro n hn c hc clause specifier
    have hmem : c ∈ calledInPlace.nodes.flatMap Node.children := List.mem_flatMap.2 ⟨n, hn, hc⟩
    rw [hchildren] at hmem
    rintro rfl
    simp [markerCall] at hmem
  · have hload : (program.scope calledInPlace).loadStatement ∉ [expandedCall] := by
      simp [expandedCall, Scope.loadStatement]
    rw [hstatements, precedesUses_append_cons hload]
    intro hunused
    refine hunused expandedCall (List.mem_singleton_self _) rfl ?_
    -- the expression, what is called, and the object of the property that is called
    have hat : expandedCall.at? [0, 0, 0] =
        some (.identifier (program.scope calledInPlace).binding) := by
      rfl
    exact Node.mem_subtree_of_at? hat

end Sample

end DateFields
