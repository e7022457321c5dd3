import DateFields.Proofs.Expansion.Correspondence
import DateFields.Proofs.TypeTable.History

/-!
# Units one after the other

The units of a program share a type table, and every unit that is expanded may leave more types in
it.  What becomes of a unit does not depend on that.

* `Derived.functional` — a derivation determines the expansion;
* `Scope.Alike` — scopes that treat nodes alike; `Program.expand_alike` — units expanded there;
* `Program.expand_congr` — the expansion only depends on what the table declares and on the calls
  that it binds;
* `Program.expand_of_later` — a table that has grown gives the same expansion as the table before;
* `Program.expand_units` — units expanded one after the other fare as each fares on its own.
-/

namespace DateFields

variable {p : Program} {u : SourceUnit} {t v : TypeTable} {e e' : Expansion}
  {rs rs' : List (Option Node)}

/-- Expansions of a unit that come from derivations on one table are the same. -/
theorem Derived.functional (ht : t.WellFormed) (h : Derived p u t e rs)
    (h' : Derived p u t e' rs') : e = e' := by
  obtain ⟨rfl, -⟩ := h.expands.functional ht h'.expands rfl
  have htally : e.tally = e'.tally := h.expands.tally_eq.trans h'.expands.tally_eq.symm
  have hbinding : e.binding = e'.binding := h.binding.trans h'.binding.symm
  have hpath : e.unit.path = e'.unit.path := h.path.trans h'.path.symm
  have hstatements : e.unit.statements = e'.unit.statements := by
    rw [h.statements, h'.statements, htally]
  obtain ⟨⟨path, statements⟩, binding, tally⟩ := e
  obtain ⟨⟨path', statements'⟩, binding', tally'⟩ := e'
  cases htally
  cases hbinding
  cases hpath
  cases hstatements
  rfl

/-! ### Scopes that are alike -/

/-- Two scopes that treat every node alike, each with a table of its own. -/
structure Scope.Alike (s : Scope) (t : TypeTable) (s' : Scope) (v : TypeTable) : Prop where
  /-- The same nodes import the marker. -/
  imports : ∀ n, s.program.isMarkerImport s.file n = s'.program.isMarkerImport s'.file n
  /-- The same calls are expanded. -/
  calls : ∀ n, s.payloadType? t n = s'.payloadType? v n
  /-- The tables declare the same. -/
  names : t.SameNames v
  /-- The same type marks a date. -/
  timestamp : s.program.config.timestamp = s'.program.config.timestamp
  /-- Calls are expanded to the same. -/
  support : s.program.config.support = s'.program.config.support
  /-- The support module has the same name. -/
  binding : s.binding = s'.binding
  /-- The marker has the same names. -/
  markerNames : s.markerNames = s'.markerNames

namespace Scope.Alike

variable {s s' : Scope}

theorem loadStatement_eq (h : s.Alike t s' v) : s.loadStatement = s'.loadStatement := by
  rw [loadStatement, loadStatement, h.binding, h.support]

theorem expandedCall_eq (h : s.Alike t s' v) (found : FieldPaths) (args : List Node) :
    s.expandedCall found args = s'.expandedCall found args := by
  rw [expandedCall, expandedCall, supportCall, supportCall, h.binding, h.support]

theorem meet_eq (h : s.Alike t s' v) (n : Node) (c : Tally) : s.meet n c = s'.meet n c := by
  have hmentions : s.mentionsMarker n = s'.mentionsMarker n := by
    cases n <;> simp only [mentionsMarker, h.markerNames]
  rw [meet, meet, hmentions]

/-- The same paths are found inside a type. -/
theorem finds (h : s.Alike t s' v) (ht : t.WellFormed) (hv : v.WellFormed) {type : TypeExpr}
    {found : FieldPaths} (hfound : s.Finds t type found) : s'.Finds v type found := by
  refine ⟨v, .refl v, ?_⟩
  rw [hfound.eq ht, run_paths_eq_getD, h.timestamp, h.names.pathsOf?_eq ht hv]

/-- The same comes of nodes. -/
theorem expands (h : s.Alike t s' v) (ht : t.WellFormed) (hv : v.WellFormed) {ns : List Node}
    {c c' : Tally} (hexpands : s.Expands t ns c rs c') : s'.Expands v ns c rs c' := by
  induction hexpands with
  | nil => exact .nil
  | load himport hfirst _ ih =>
    rw [h.loadStatement_eq]
    exact .load ((h.imports _).symm.trans himport) hfirst ih
  | repeated himport hlater _ ih => exact .repeated ((h.imports _).symm.trans himport) hlater ih
  | call hcall hfound _ _ ihargs ih =>
    rw [h.expandedCall_eq]
    exact .call ((h.calls _).symm.trans hcall) (h.finds ht hv hfound) ihargs ih
  | keep himport hcall _ _ ihbelow ih =>
    rw [h.meet_eq] at ihbelow
    exact .keep ((h.imports _).symm.trans himport) ((h.calls _).symm.trans hcall) ihbelow ih

end Scope.Alike

/-- The same expansion of a unit in another file. -/
def Expansion.inFile (e : Expansion) (path : Path) : Expansion :=
  { e with unit := ⟨path, e.unit.statements⟩ }

/-- Units with the same statements are expanded in the same way in scopes that are alike, each in its
own file. -/
theorem Program.expand_alike {p p' : Program} {u u' : SourceUnit} (ht : t.WellFormed)
    (hv : v.WellFormed) (h : (p.scope u).Alike t (p'.scope u') v)
    (hstatements : u.statements = u'.statements) :
    ((p'.expand u').run v).1 = ((p.expand u).run t).1.inFile u'.path := by
  obtain ⟨rs, hder⟩ := p.expand_derived u t
  obtain ⟨rs', hder'⟩ := p'.expand_derived u' v
  have hexpands := h.expands ht hv hder.expands
  rw [hstatements] at hexpands
  refine hder'.functional hv ⟨hexpands, hder.binding.trans h.binding, rfl, ?_⟩
  rw [← h.loadStatement_eq]
  exact hder.statements

/-- A unit is expanded in the same way on tables that declare the same and bind the same calls. -/
theorem Program.expand_congr (p : Program) (u : SourceUnit) (ht : t.WellFormed)
    (hv : v.WellFormed) (hnames : t.SameNames v) (hbindings : v.bindings = t.bindings) :
    ((p.expand u).run v).1 = ((p.expand u).run t).1 := by
  have hcalls := fun n => (Scope.payloadType?_congr (s := p.scope u) hbindings n).symm
  rw [Program.expand_alike ht hv ⟨fun _ => rfl, hcalls, hnames, rfl, rfl, rfl, rfl⟩ rfl]
  obtain ⟨rs, hder⟩ := p.expand_derived u t
  rw [Expansion.inFile, ← hder.path]

/-! ### Tables that grow -/

/-- Whatever has been entered into a table since, a unit is expanded as before. -/
theorem Program.expand_of_later (p : Program) (u : SourceUnit) (ht : t.WellFormed)
    (h : t.Later v) : ((p.expand u).run v).1 = ((p.expand u).run t).1 :=
  p.expand_congr u ht (h.wellFormed ht) ((TypeTable.Extends.refl t).sameNames h.extend ht)
    h.extend.bindings

/-- A run over several units gives what each gives on the table that the run began with, or on one
from which that table has grown. -/
theorem Program.run_mapM_expand (p : Program) (ht : t.WellFormed) (units : List SourceUnit)
    (h : t.Later v) :
    ((units.mapM p.expand).run v).1 = units.map fun u => ((p.expand u).run t).1 := by
  induction units generalizing v with
  | nil => rfl
  | cons u units ih =>
    -- the first unit leaves a table that the others find, again one that `t` has grown into
    have hnext : t.Later ((p.expand u).run v).2 := (p.derived_of_later u h).2
    have hrun : (((u :: units).mapM p.expand).run v).1 =
        ((p.expand u).run v).1 :: ((units.mapM p.expand).run ((p.expand u).run v).2).1 := by
      rw [List.mapM_cons]
      rfl
    rw [hrun, ih hnext, p.expand_of_later u ht h, List.map_cons]

/-- Units that are expanded one after the other, with the table of a document that grows on the way,
fare as each of them fares on its own, with the table that the document describes. -/
theorem Program.expand_units (p : Program) (types : List TypeDeclaration)
    (calls : List CallBinding) (units : List SourceUnit) :
    let fresh := TypeTable.ofDeclarations types calls
    ((units.mapM p.expand).run fresh).1 = units.map fun u => ((p.expand u).run fresh).1 := by
  intro fresh
  have hfresh : fresh.WellFormed := TypeTable.wellFormed_ofDeclarations types calls
  exact p.run_mapM_expand hfresh units (.refl fresh)

end DateFields
