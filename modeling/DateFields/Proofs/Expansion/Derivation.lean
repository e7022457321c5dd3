import DateFields.Proofs.Expansion.Visited
import DateFields.Proofs.Node.Replies
import DateFields.Proofs.TypeTable.Discovery

/-!
# Derivations of an expansion

What becomes of a list of nodes is told by rules, one for every way a node may fare.  The table of
types only matters by the calls it binds and by the paths it has for a type.

* `Scope.Finds` — the paths found for a type on some table that the first one has grown into;
  `Finds.eq` says which these are;
* `Scope.Expands` — the rules; `Scope.follows_mapM_visit` derives what a run gives, on every table
  that the first one has grown into;
* `Expands.tally_eq` — what is counted are the visited nodes.
-/

namespace DateFields

/-! ### Tables along the way -/

/-- `u` is a table that `t` has grown into. -/
structure TypeTable.Later (t u : TypeTable) : Prop where
  /-- No name is new. -/
  extend : t.Extends u
  /-- The invariant is kept. -/
  wellFormed : t.WellFormed → u.WellFormed

theorem TypeTable.Later.refl (t : TypeTable) : t.Later t := ⟨Extends.refl t, fun ht => ht⟩

theorem TypeTable.Later.trans {t u v : TypeTable} (h : t.Later u) (h' : u.Later v) : t.Later v :=
  ⟨h.extend.trans h'.extend, fun ht => h'.wellFormed (h.wellFormed ht)⟩

namespace Scope

variable {s : Scope} {t u : TypeTable}

theorem payloadType?_congr (h : u.bindings = t.bindings) (n : Node) :
    s.payloadType? u n = s.payloadType? t n := by
  cases n with
  | call id callee typeArgs args =>
    cases typeArgs <;> cases args <;> try rfl
    rw [payloadType?, payloadType?, Program.isMarkerCall_congr h]
  | _ => rfl

theorem isSome_payloadType? (n : Node) :
    (s.payloadType? t n).isSome = s.program.isExpandable t s.file n := by
  cases n with
  | call id callee typeArgs args =>
    cases typeArgs <;> cases args <;> try rfl
    rw [payloadType?, Program.isExpandable]
    split <;> simp_all
  | _ => rfl

theorem isExpandable_of_payloadType? {n : Node} {type : TypeExpr}
    (h : s.payloadType? t n = some type) : s.program.isExpandable t s.file n = true := by
  rw [← isSome_payloadType?, h]
  rfl

theorem not_isExpandable_of_payloadType? {n : Node} (h : s.payloadType? t n = none) :
    s.program.isExpandable t s.file n = false := by
  rw [← isSome_payloadType?, h]
  rfl

theorem mentionsMarker_of_isMarkerImport {n : Node}
    (h : s.program.isMarkerImport s.file n = true) : s.mentionsMarker n = false := by
  cases n with
  | importDecl => rfl
  | _ => cases h

theorem mentionsMarker_of_isExpandable {n : Node}
    (h : s.program.isExpandable t s.file n = true) : s.mentionsMarker n = false := by
  cases n with
  | call => rfl
  | _ => cases h

/-! ### Paths -/

theorem run_paths (type : TypeExpr) (t : TypeTable) : (s.paths type).run t =
    match (TypeTable.resolve type.unwrapArrays).run.run t with
    | (none, u) => ([], u)
    | (some id, u) => (TypeTable.discover s.program.config.timestamp id []).run u := by
  rw [paths, StateT.run_bind]
  cases (TypeTable.resolve type.unwrapArrays).run.run t with
  | mk r u => cases r <;> rfl

theorem later_paths (type : TypeExpr) : t.Later ((s.paths type).run t).2 := by
  have hext := TypeTable.grows_resolve type.unwrapArrays t
  have hwf := fun ht : t.WellFormed =>
    (TypeTable.ensures_resolve type.unwrapArrays ht).wellFormed
  rw [run_paths]
  generalize (TypeTable.resolve type.unwrapArrays).run.run t = resolved at hext hwf ⊢
  match resolved with
  | (none, u) => exact ⟨hext, hwf⟩
  | (some id, u) => exact ⟨hext.trans (TypeTable.grows_discover _ id [] u), fun ht =>
      (hwf ht).run_discover_wellFormed _ id []⟩

theorem run_paths_eq_getD (type : TypeExpr) (t : TypeTable) : ((s.paths type).run t).1 =
    (t.pathsOf? s.program.config.timestamp [] type.unwrapArrays).getD [] := by
  rw [run_paths, TypeTable.pathsOf?]
  cases (TypeTable.resolve type.unwrapArrays).run.run t with
  | mk r u => cases r <;> rfl

/-- The paths are those inside a type on some table that `t` has grown into. -/
def Finds (s : Scope) (t : TypeTable) (type : TypeExpr) (found : FieldPaths) : Prop :=
  ∃ u, t.Later u ∧ found = ((s.paths type).run u).1

/-- When the table is well formed there is only one choice: the paths inside the type under all array
types, as it resolves on that table, and none if it resolves to nothing. -/
theorem Finds.eq {type : TypeExpr} {found : FieldPaths} (h : s.Finds t type found)
    (ht : t.WellFormed) :
    found = (t.pathsOf? s.program.config.timestamp [] type.unwrapArrays).getD [] := by
  obtain ⟨u, hu, rfl⟩ := h
  have hnames : u.SameNames t := hu.extend.sameNames (.refl t) ht
  rw [run_paths_eq_getD, hnames.pathsOf?_eq (hu.wellFormed ht) ht]

/-! ### Rules -/

/-- The call that takes the place of a call of the marker: the payload, the paths, and the options
if there are any. -/
def expandedCall (s : Scope) (found : FieldPaths) (args : List Node) : Node :=
  s.supportCall (args.take 1 ++ found.literal :: args.drop 1)

/-- What has been found once a node that is kept has been met. -/
def meet (s : Scope) (n : Node) (c : Tally) : Tally :=
  if s.mentionsMarker n then c.addMention else c

theorem imports_meet (n : Node) (c : Tally) : (s.meet n c).imports = c.imports := by
  rw [meet]
  split <;> rfl

theorem calls_meet (n : Node) (c : Tally) : (s.meet n c).calls = c.calls := by
  rw [meet]
  split <;> rfl

/-- How nodes fare that are visited one after the other: what had been found before, what comes of
each node, and what has been found afterwards. -/
inductive Expands (s : Scope) (t : TypeTable) :
    List Node → Tally → List (Option Node) → Tally → Prop
  /-- There are no nodes. -/
  | nil {c : Tally} : Expands s t [] c [] c
  /-- The first import of the marker loads the support module. -/
  | load {n : Node} {ns : List Node} {c c' : Tally} {rs : List (Option Node)}
    (himport : s.program.isMarkerImport s.file n = true) (hfirst : c.imports = 0)
    (hrest : Expands s t ns c.addImport rs c') :
    Expands s t (n :: ns) c (some s.loadStatement :: rs) c'
  /-- Nothing comes of any other import of the marker. -/
  | repeated {n : Node} {ns : List Node} {c c' : Tally} {rs : List (Option Node)}
    (himport : s.program.isMarkerImport s.file n = true) (hlater : c.imports ≠ 0)
    (hrest : Expands s t ns c.addImport rs c') : Expands s t (n :: ns) c (none :: rs) c'
  /-- A call of the marker becomes a call of the support function. -/
  | call {n : Node} {ns : List Node} {c c₁ c' : Tally} {ks rs : List (Option Node)}
    {type : TypeExpr} {found : FieldPaths} (hcall : s.payloadType? t n = some type)
    (hfound : s.Finds t type found) (hargs : Expands s t n.keptArgs c ks c₁)
    (hrest : Expands s t ns c₁.addCall rs c') :
    Expands s t (n :: ns) c
      (some (s.expandedCall found (Node.keptChildren (n.keptArgs.map .fixed) ks)) :: rs) c'
  /-- Any other node is kept, with other children. -/
  | keep {n : Node} {ns : List Node} {c c₁ c' : Tally} {ks rs : List (Option Node)}
    (himport : s.program.isMarkerImport s.file n = false) (hcall : s.payloadType? t n = none)
    (hbelow : Expands s t n.children (s.meet n c) ks c₁) (hrest : Expands s t ns c₁ rs c') :
    Expands s t (n :: ns) c (some (n.withReplies ks) :: rs) c'

theorem Expands.cons {n : Node} {ns : List Node} {c c₁ c' : Tally} {r : Option Node}
    {rs : List (Option Node)} (h : Expands s t [n] c [r] c₁) (hrest : Expands s t ns c₁ rs c') :
    Expands s t (n :: ns) c (r :: rs) c' := by
  cases h with
  | load himport hfirst h => cases h; exact .load himport hfirst hrest
  | repeated himport hlater h => cases h; exact .repeated himport hlater hrest
  | call hcall hfound hargs h => cases h; exact .call hcall hfound hargs hrest
  | keep himport hcall hbelow h => cases h; exact .keep himport hcall hbelow hrest

theorem Expands.cons_inv {n : Node} {ns : List Node} {c c' : Tally} {rs : List (Option Node)}
    (h : Expands s t (n :: ns) c rs c') : ∃ r rest c₁, rs = r :: rest ∧
      Expands s t [n] c [r] c₁ ∧ Expands s t ns c₁ rest c' := by
  cases h with
  | load himport hfirst hrest => exact ⟨_, _, _, rfl, .load himport hfirst .nil, hrest⟩
  | repeated himport hlater hrest => exact ⟨_, _, _, rfl, .repeated himport hlater .nil, hrest⟩
  | call hcall hfound hargs hrest => exact ⟨_, _, _, rfl, .call hcall hfound hargs .nil, hrest⟩
  | keep himport hcall hbelow hrest => exact ⟨_, _, _, rfl, .keep himport hcall hbelow .nil, hrest⟩

theorem Expands.append_inv {ns ms : List Node} {c c' : Tally} {rs : List (Option Node)}
    (h : Expands s t (ns ++ ms) c rs c') : ∃ rs₁ rs₂ c₁, rs = rs₁ ++ rs₂ ∧
      Expands s t ns c rs₁ c₁ ∧ Expands s t ms c₁ rs₂ c' := by
  induction ns generalizing c rs with
  | nil => exact ⟨[], rs, c, rfl, .nil, h⟩
  | cons n ns ih =>
    obtain ⟨r, rest, c₁, rfl, hn, hrest⟩ := h.cons_inv
    obtain ⟨rs₁, rs₂, c₂, rfl, hns, hms⟩ := ih hrest
    exact ⟨r :: rs₁, rs₂, c₂, rfl, hn.cons hns, hms⟩

theorem Expands.length_eq {ns : List Node} {c c' : Tally} {rs : List (Option Node)}
    (h : Expands s t ns c rs c') : rs.length = ns.length := by
  induction h with
  | nil => rfl
  | _ => simp_all

/-! ### Counting -/

/-- What has been found once some nodes have been visited. -/
def tally (s : Scope) (t : TypeTable) (c : Tally) (ns : List Node) : Tally :=
  ⟨c.imports + ns.countP (s.program.isMarkerImport s.file),
    c.calls + ns.countP (s.program.isExpandable t s.file), c.mentions + ns.countP s.mentionsMarker⟩

theorem tally_append (c : Tally) (ns ms : List Node) :
    s.tally t c (ns ++ ms) = s.tally t (s.tally t c ns) ms := by
  simp [tally, List.countP_append, Nat.add_assoc]

theorem tally_cons (c : Tally) (n : Node) (ns : List Node) :
    s.tally t c (n :: ns) = s.tally t (s.tally t c [n]) ns :=
  tally_append c [n] ns

theorem tally_addCall (c : Tally) (ns : List Node) :
    s.tally t c.addCall ns = (s.tally t c ns).addCall := by
  simp [tally, Tally.addCall, Nat.add_right_comm]

theorem tally_import {n : Node} (h : s.program.isMarkerImport s.file n = true) (c : Tally) :
    s.tally t c [n] = c.addImport := by
  simp [tally, Tally.addImport, h, Program.isExpandable_of_isMarkerImport h,
    mentionsMarker_of_isMarkerImport h]

theorem tally_call {n : Node} (h : s.program.isExpandable t s.file n = true) (c : Tally) :
    s.tally t c [n] = c.addCall := by
  simp [tally, Tally.addCall, h, Program.isMarkerImport_of_isExpandable h,
    mentionsMarker_of_isExpandable h]

theorem tally_keep {n : Node} (himport : s.program.isMarkerImport s.file n = false)
    (hcall : s.program.isExpandable t s.file n = false) (c : Tally) :
    s.tally t c [n] = s.meet n c := by
  by_cases hmention : s.mentionsMarker n = true <;>
    simp [tally, himport, hcall, hmention, meet, Tally.addMention]

/-- What is found is what the visited nodes hold. -/
theorem Expands.tally_eq {ns : List Node} {c c' : Tally} {rs : List (Option Node)}
    (h : Expands s t ns c rs c') : c' = s.tally t c (ns.flatMap (s.program.reached t s.file)) := by
  induction h with
  | nil => rfl
  | load himport _ _ ih =>
    rw [ih, List.flatMap_cons, Program.reached_of_isMarkerImport himport, List.singleton_append,
      tally_cons, tally_import himport]
  | repeated himport _ _ ih =>
    rw [ih, List.flatMap_cons, Program.reached_of_isMarkerImport himport, List.singleton_append,
      tally_cons, tally_import himport]
  | call hcall _ _ _ ihargs ih =>
    have hexp := isExpandable_of_payloadType? hcall
    rw [ih, ihargs, List.flatMap_cons, tally_append, Program.reached_of_isExpandable hexp,
      tally_cons, tally_call hexp, tally_addCall, tally_addCall, tally_addCall]
  | keep himport hcall _ _ ihbelow ih =>
    have hexp := not_isExpandable_of_payloadType? hcall
    rw [ih, ihbelow, List.flatMap_cons, tally_append, Program.reached_of_not_isExpandable hexp,
      tally_cons, tally_keep himport hexp]

theorem Expands.imports_le {ns : List Node} {c c' : Tally} {rs : List (Option Node)}
    (h : Expands s t ns c rs c') : c.imports ≤ c'.imports := by
  rw [h.tally_eq]
  exact Nat.le_add_right _ _

/-! ### Runs -/

/-- On every table that `t` has grown into, the run follows the rules, and leaves such a table. -/
def Follows (s : Scope) (t : TypeTable) (ns : List Node) (m : Expanding (List (Option Node))) :
    Prop :=
  ∀ c u, t.Later u → Expands s t ns c ((m.run c).run u).1.1 ((m.run c).run u).1.2 ∧
    t.Later ((m.run c).run u).2

theorem follows_mapM {ns : List Node}
    (h : ∀ n ∈ ns, Follows s t [n] (return [← s.visit n])) : Follows s t ns (ns.mapM s.visit) := by
  induction ns with
  | nil => exact fun c u hu => ⟨.nil, hu⟩
  | cons n ns ih =>
    intro c u hu
    obtain ⟨hn, hu₁⟩ := h n List.mem_cons_self c u hu
    obtain ⟨hns, hu₂⟩ := ih (fun m hm => h m (List.mem_cons_of_mem n hm)) _ _ hu₁
    rw [List.mapM_cons]
    exact ⟨hn.cons hns, hu₂⟩

/-- The arguments of an expanded call are replied to like the children of any node. -/
theorem mapM_keptArgs (ns : List Node) :
    (ns.mapM fun n => return (← s.visit n).getD n : Expanding (List Node)) =
      Node.keptChildren (ns.map .fixed) <$> ns.mapM s.visit := by
  induction ns with
  | nil => simp
  | cons n ns ih =>
    simp only [bind_pure_comp] at ih
    simp [List.mapM_cons, ih, Node.kept_fixed]

theorem expandCall_eq (type : TypeExpr) (n : Node) :
    s.expandCall type ((n.children.zip (n.children.map s.visit)).drop 1) = do
      let found ← s.paths type
      let ks ← n.keptArgs.mapM s.visit
      modify Tally.addCall
      return s.expandedCall found (Node.keptChildren (n.keptArgs.map .fixed) ks) := by
  rw [expandCall, ← List.map_prod_left_eq_zip, ← List.map_drop, ← List.map_take, ← Node.keptArgs,
    List.mapM_map]
  have h := mapM_keptArgs (s := s) n.keptArgs
  simp only [bind_pure_comp] at h
  simp [Function.comp_def, h, expandedCall]

section Run

variable {n : Node} {c : Tally}

theorem run_getThe_bind (f : TypeTable → Expanding (Option Node)) :
    ((getThe TypeTable >>= f : Expanding (Option Node)).run c).run u = ((f u).run c).run u := rfl

theorem run_visit_import (himport : s.program.isMarkerImport s.file n = true) :
    ((s.visit n).run c).run u =
      ((if c.imports = 0 then some s.loadStatement else none, c.addImport), u) := by
  rw [visit_eq, expandNode, if_pos himport]
  rfl

theorem run_visit_call (himport : s.program.isMarkerImport s.file n = false) {type : TypeExpr}
    (hcall : s.payloadType? u n = some type) : ((s.visit n).run c).run u =
      let found := (s.paths type).run u
      let kept := ((n.keptArgs.mapM s.visit).run c).run found.2
      ((some (s.expandedCall found.1 (Node.keptChildren (n.keptArgs.map .fixed) kept.1.1)),
        kept.1.2.addCall), kept.2) := by
  rw [visit_eq, expandNode, if_neg (by rw [himport]; exact Bool.false_ne_true), run_getThe_bind,
    hcall]
  simp only [expandCall_eq]
  rfl

theorem run_visit_keep (himport : s.program.isMarkerImport s.file n = false)
    (hcall : s.payloadType? u n = none) : ((s.visit n).run c).run u =
      let kept := ((n.children.mapM s.visit).run (s.meet n c)).run u
      ((some (n.withReplies kept.1.1), kept.1.2), kept.2) := by
  rw [visit_eq, expandNode, if_neg (by rw [himport]; exact Bool.false_ne_true), run_getThe_bind,
    hcall]
  simp only [List.mapM_map]
  rfl

end Run

/-- Visiting a node follows the rules. -/
theorem follows_visit (s : Scope) (t : TypeTable) (n : Node) :
    Follows s t [n] (return [← s.visit n]) := by
  induction n using Node.ind_children with
  | _ n ih =>
    intro c u hu
    show Expands s t [n] c [(((s.visit n).run c).run u).1.1] (((s.visit n).run c).run u).1.2 ∧
      t.Later (((s.visit n).run c).run u).2
    have hcall := payloadType?_congr (s := s) hu.extend.bindings n
    cases himport : s.program.isMarkerImport s.file n with
    | true =>
      rw [run_visit_import himport]
      refine ⟨?_, hu⟩
      by_cases hfirst : c.imports = 0
      · simpa [hfirst] using Expands.load himport hfirst .nil
      · simpa [hfirst] using Expands.repeated himport hfirst .nil
    | false =>
      cases htype : s.payloadType? t n with
      | some type =>
        rw [run_visit_call himport (hcall.trans htype)]
        have hpaths := hu.trans (later_paths (s := s) type)
        obtain ⟨hargs, hlater⟩ := follows_mapM
          (fun m hm => ih m (List.mem_of_mem_drop (List.mem_of_mem_take hm))) c _ hpaths
        exact ⟨.call htype ⟨u, hu, rfl⟩ hargs .nil, hlater⟩
      | none =>
        rw [run_visit_keep himport (hcall.trans htype)]
        obtain ⟨hbelow, hlater⟩ := follows_mapM ih (s.meet n c) u hu
        exact ⟨.keep himport htype hbelow .nil, hlater⟩

/-- Visiting nodes one after the other follows the rules. -/
theorem follows_mapM_visit (s : Scope) (t : TypeTable) (ns : List Node) :
    Follows s t ns (ns.mapM s.visit) :=
  follows_mapM fun n _ => follows_visit s t n

end Scope

end DateFields
