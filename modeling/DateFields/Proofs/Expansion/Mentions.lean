import DateFields.Proofs.Expansion.Output

/-!
# Mentions of the marker in raw text

A call of the marker inside raw text cannot be expanded, so it is counted instead.  The names are
those that the imports at the top level of the unit bind, whether they stand before the text or
behind it; the count is of texts that are still there in the expanded unit.

* `ImportClause.Binds`, `Program.Mentions` — the names, and the raw texts with one of them in it;
* `Expands.length_gathered_mentionsMarker` — every such text is counted where it is kept, once;
* `Program.expand_mentions` — the count for a unit.
-/

namespace DateFields

/-! ### Names of the marker -/

/-- The clause binds the name: as the default, behind `* as`, behind `as`, or as it is exported. -/
def ImportClause.Binds (c : ImportClause) (name : String) : Prop :=
  c.defaultName = some name ∨ c.namespaceName = some name ∨
    ∃ i ∈ c.named, i.asName = some name ∨ i.asName = none ∧ i.name = name

/-- The node is raw text, and a word in it is bound by an import of the marker that is one of the
statements of the unit. -/
def Program.Mentions (p : Program) (u : SourceUnit) (n : Node) : Prop :=
  ∃ text, n = .verbatim text ∧ ∃ word ∈ Text.identifierWords text, ∃ clause specifier,
    .importDecl (some clause) specifier ∈ u.statements ∧
      p.isMarkerImport u.path (.importDecl (some clause) specifier) = true ∧ clause.Binds word

theorem ImportName.localName_eq_iff {i : ImportName} {name : String} :
    i.localName = name ↔ i.asName = some name ∨ i.asName = none ∧ i.name = name := by
  cases h : i.asName <;> simp [localName, h]

theorem ImportClause.mem_localNames_iff {c : ImportClause} {name : String} :
    name ∈ c.localNames ↔ c.Binds name := by
  simp [localNames, Binds, ImportName.localName_eq_iff]

theorem Program.mem_markerNames_iff {p : Program} {u : SourceUnit} {name : String} :
    name ∈ p.markerNames u ↔ ∃ clause specifier, .importDecl (some clause) specifier ∈ u.statements ∧
      p.isMarkerImport u.path (.importDecl (some clause) specifier) = true ∧ clause.Binds name := by
  rw [markerNames, List.mem_flatMap]
  constructor
  · rintro ⟨n, hn, hname⟩
    obtain ⟨hmem, himport⟩ := List.mem_filter.1 hn
    match n, hname with
    | .importDecl (some clause) specifier, hname =>
      exact ⟨clause, specifier, hmem, himport, ImportClause.mem_localNames_iff.1 hname⟩
  · rintro ⟨clause, specifier, hmem, himport, hbinds⟩
    exact ⟨_, List.mem_filter.2 ⟨hmem, himport⟩, ImportClause.mem_localNames_iff.2 hbinds⟩

theorem Program.mentionsMarker_scope_iff {p : Program} {u : SourceUnit} {n : Node} :
    (p.scope u).mentionsMarker n = true ↔ p.Mentions u n := by
  cases n with
  | verbatim text =>
    simp [Scope.mentionsMarker, Mentions, scope, mem_markerNames_iff]
  | _ => simp [Scope.mentionsMarker, Mentions]

instance (p : Program) (u : SourceUnit) : DecidablePred (p.Mentions u) := fun _ =>
  decidable_of_iff _ Program.mentionsMarker_scope_iff

namespace Scope

variable {s : Scope} {t : TypeTable} {ns : List Node} {c c' : Tally} {rs : List (Option Node)}

/-! ### What is counted -/

theorem plain_mentionsMarker (s : Scope) : Plain s.mentionsMarker :=
  ⟨fun _ _ => rfl, fun _ => rfl, fun _ => rfl⟩

/-- Raw text has no children, so it stays what it is. -/
theorem mentionsMarker_withReplies (n : Node) (ks : List (Option Node)) :
    s.mentionsMarker (n.withReplies ks) = s.mentionsMarker n := by
  cases n <;> rfl

theorem length_filter_withReplies (n : Node) (ks : List (Option Node)) :
    ([n.withReplies ks].filter s.mentionsMarker).length = if s.mentionsMarker n then 1 else 0 := by
  rw [List.filter_singleton, mentionsMarker_withReplies]
  by_cases h : s.mentionsMarker n = true <;> simp [h]

theorem mentions_meet (n : Node) (c : Tally) :
    (s.meet n c).mentions = c.mentions + if s.mentionsMarker n then 1 else 0 := by
  by_cases h : s.mentionsMarker n = true <;> simp [meet, h, Tally.addMention]

/-- What is counted are the mentions among the replies.  A text that is not visited is dropped, and a
text that is visited stays. -/
theorem Expands.length_gathered_mentionsMarker (h : Expands s t ns c rs c') :
    c.mentions + (gathered s.mentionsMarker rs).length = c'.mentions := by
  have hplain := plain_mentionsMarker s
  induction h with
  | nil => rfl
  | load _ _ _ ih =>
    rw [gathered_some, filter_subtree_loadStatement, ← ih]
    rfl
  | repeated _ _ _ ih => exact ih
  | @call n ns c c₁ c' ks rs type found _ _ hargs _ ihargs ih =>
    have hcalled : [s.expandedCall found (Node.keptChildren (n.keptArgs.map .fixed) ks),
        .propertyAccess (.identifier s.binding) s.program.config.support.function,
        .identifier s.binding].filter s.mentionsMarker = [] := rfl
    rw [gathered_some, hargs.filter_subtree_expandedCall hplain.array hplain.string
      (fun _ _ => hplain.of_isMarkerImport), hcalled, List.nil_append, List.length_append,
      ← Nat.add_assoc, ihargs]
    exact ih
  | keep _ _ hbelow _ ihbelow ih =>
    rw [mentions_meet] at ihbelow
    rw [gathered_some, hbelow.filter_subtree_withReplies (fun _ _ _ => hplain.of_isMarkerImport),
      List.length_append, List.length_append, length_filter_withReplies, ← Nat.add_assoc,
      ← Nat.add_assoc, ihbelow, ih]

end Scope

/-! ### Units -/

/-- The mentions that are counted while a unit is expanded are the raw texts in the expanded unit, at
any depth, that have a name of the marker in them. -/
theorem Program.expand_mentions (p : Program) (u : SourceUnit) (types : TypeTable) :
    let e := ((p.expand u).run types).1
    e.tally.mentions = e.unit.nodes.countP (p.Mentions u ·) := by
  intro e
  obtain ⟨rs, h⟩ : ∃ rs, Derived p u types e rs := p.expand_derived u types
  have hcount := h.expands.length_gathered_mentionsMarker
  have hload : (p.scope u).loadStatement.subtree.filter (p.scope u).mentionsMarker = [] := rfl
  have hq : (fun n => decide (p.Mentions u n)) = (p.scope u).mentionsMarker := by
    funext n
    rw [Bool.eq_iff_iff, decide_eq_true_iff, mentionsMarker_scope_iff]
  rw [hq, List.countP_eq_length_filter, h.filter_nodes, hload, ite_self, List.nil_append, ← hcount]
  exact Nat.zero_add _

end DateFields
