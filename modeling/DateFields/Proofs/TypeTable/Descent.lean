import DateFields.Proofs.TypeTable.Discovery
import Mathlib.Data.Finset.Card
import Mathlib.Data.Finset.SDiff

/-!
# Discovery without a bound

The walk along the fields of a type, with nothing to bound its steps: it carries the table, the set
of the types on the way and the paths found so far, and enters a type whenever this is not on the
way.  It ends on every table, for behind the root only classes and interfaces are entered, and no
question asked on the way adds one.

* `Walks` — the walk, as a relation between its states;
* `Walks.functional` — it has one outcome at most;
* `structuredTypes`, `Extends.structuredTypes_eq` — the classes and the interfaces of a table, which
  are those of every extension of it;
* `walks_walk` — with enough steps for the classes and interfaces that are not on the way, the
  bounded walk is the unbounded one;
* `walks_iff_discover` — discovery is the unbounded walk, on every table that operations lead to.
-/

namespace DateFields.TypeTable

variable {timestamp : String}

/-! ### The walk -/

/-- What the walk changes. -/
structure WalkState where
  /-- The table, to which types are added. -/
  table : TypeTable
  /-- The types on the way from the root. -/
  onWay : Finset TypeId
  /-- The paths found so far. -/
  found : FieldPaths

/-- What the walk is about to do. -/
inductive WalkTask where
  /-- To enter a type. -/
  | type (id : TypeId)
  /-- To follow properties of the type entered last. -/
  | fields (ps : List Property)

/-- What a property comes to; one without a type comes to nothing. -/
def readProperty (timestamp : String) (p : Property) : Resolving FieldType :=
  match p.type with
  | none => failure
  | some declared => classify timestamp declared

/-- The walk does the task at the path, from the first state to the second. -/
inductive Walks (timestamp : String) : WalkTask → FieldPath → WalkState → WalkState → Prop
  /-- A type on the way is not entered again. -/
  | again {id : TypeId} {path : FieldPath} {s : WalkState} (hid : id ∈ s.onWay) :
    Walks timestamp (.type id) path s s
  /-- Any other type is on the way while its properties are followed. -/
  | enter {id : TypeId} {path : FieldPath} {s s' : WalkState} (hid : id ∉ s.onWay)
    (hfields : Walks timestamp (.fields (s.table.properties id)) path
      { s with onWay := insert id s.onWay } s') :
    Walks timestamp (.type id) path s { s' with onWay := s'.onWay.erase id }
  /-- No properties are left. -/
  | done {path : FieldPath} {s : WalkState} : Walks timestamp (.fields []) path s s
  /-- A date ends a path. -/
  | date {p : Property} {ps : List Property} {path : FieldPath} {s s' : WalkState} {u : TypeTable}
    (hread : (readProperty timestamp p).run.run s.table = (some (.leaf timestamp), u))
    (hrest : Walks timestamp (.fields ps) path
      { s with table := u, found := s.found ++ [path ++ [p.name]] } s') :
    Walks timestamp (.fields (p :: ps)) path s s'
  /-- Any other leaf is passed over, and so is a property that comes to nothing. -/
  | skip {p : Property} {ps : List Property} {path : FieldPath} {s s' : WalkState}
    {r : Option FieldType} {u : TypeTable}
    (hread : (readProperty timestamp p).run.run s.table = (r, u))
    (hdate : r ≠ some (.leaf timestamp)) (hnext : ∀ next, r ≠ some (.structured next))
    (hrest : Walks timestamp (.fields ps) path { s with table := u } s') :
    Walks timestamp (.fields (p :: ps)) path s s'
  /-- A class or an interface is entered, at the path of the property. -/
  | descend {p : Property} {ps : List Property} {path : FieldPath} {s s' s'' : WalkState}
    {next : TypeId} {u : TypeTable}
    (hread : (readProperty timestamp p).run.run s.table = (some (.structured next), u))
    (hinner : Walks timestamp (.type next) (path ++ [p.name]) { s with table := u } s')
    (hrest : Walks timestamp (.fields ps) path s' s'') :
    Walks timestamp (.fields (p :: ps)) path s s''

/-- The walk has one outcome at most. -/
theorem Walks.functional {task : WalkTask} {path : FieldPath} {s a b : WalkState}
    (ha : Walks timestamp task path s a) (hb : Walks timestamp task path s b) : a = b := by
  induction ha generalizing b with
  | again hid =>
    cases hb with
    | again => rfl
    | enter hid' => exact absurd hid hid'
  | enter hid _ ih =>
    cases hb with
    | again hid' => exact absurd hid' hid
    | enter _ hfields => rw [ih hfields]
  | done => cases hb; rfl
  | date hread _ ih =>
    cases hb with
    | date hread' hrest => cases hread.symm.trans hread'; exact ih hrest
    | skip hread' hdate => cases hread.symm.trans hread'; exact absurd rfl hdate
    | descend hread' => cases hread.symm.trans hread'
  | skip hread hdate hnext _ ih =>
    cases hb with
    | date hread' => cases hread.symm.trans hread'; exact absurd rfl hdate
    | skip hread' _ _ hrest => cases hread.symm.trans hread'; exact ih hrest
    | descend hread' => cases hread.symm.trans hread'; exact absurd rfl (hnext _)
  | descend hread _ _ ihinner ihrest =>
    cases hb with
    | date hread' => cases hread.symm.trans hread'
    | skip hread' _ hnext => cases hread.symm.trans hread'; exact absurd rfl (hnext _)
    | descend hread' hinner hrest =>
      cases hread.symm.trans hread'
      obtain rfl := ihinner hinner
      exact ihrest hrest

/-! ### Classes and interfaces -/

/-- The classes and the interfaces of a table. -/
def structuredTypes (t : TypeTable) : Finset TypeId :=
  (Finset.range t.entries.length).filter (t.isStructured ·)

variable {t u : TypeTable}

theorem mem_structuredTypes {id : TypeId} : id ∈ t.structuredTypes ↔ t.isStructured id = true := by
  rw [structuredTypes, Finset.mem_filter, Finset.mem_range, and_iff_right_iff_imp]
  intro h
  obtain ⟨d, hd⟩ := isStructured_iff.1 h
  exact lt_of_entryAt? hd

/-- Entering types adds no class and no interface. -/
theorem Extends.structuredTypes_eq (h : t.Extends u) : u.structuredTypes = t.structuredTypes := by
  ext id
  rw [mem_structuredTypes, mem_structuredTypes, isStructured_iff, isStructured_iff]
  exact ⟨fun ⟨d, hd⟩ => ⟨d, h.entryAt?_of_named hd rfl⟩, fun ⟨d, hd⟩ => ⟨d, h.entryAt?_some hd⟩⟩

theorem card_structuredTypes_le (t : TypeTable) : t.structuredTypes.card ≤ t.structuredCount := by
  rw [← Finset.length_toList]
  exact length_le_structuredCount (Finset.nodup_toList _) fun m hm =>
    mem_structuredTypes.1 (Finset.mem_toList.1 hm)

/-- A class or an interface that a property leads into is one of the table. -/
theorem WellFormed.mem_structuredTypes_of_read (ht : t.WellFormed) {p : Property} {id : TypeId}
    (h : (readProperty timestamp p).run.run t = (some (.structured id), u)) :
    id ∈ t.structuredTypes := by
  rw [readProperty] at h
  cases hp : p.type with
  | none =>
    rw [hp] at h
    cases h
  | some declared =>
    rw [hp] at h
    exact mem_structuredTypes.2 (ht.lt_of_fieldType? (congrArg Prod.fst h)).2

/-- Reading a property only enters types. -/
theorem ensures_readProperty (ht : t.WellFormed) (timestamp : String) (p : Property) :
    Ensures t (readProperty timestamp p).run fun _ _ => True := by
  rw [readProperty]
  cases p.type with
  | none => exact Ensures.pure ht trivial
  | some declared =>
    have h := ensures_classify ht timestamp declared
    exact ⟨h.extend, h.wellFormed, trivial⟩

/-! ### The bound -/

/-- The state after a computation that finds paths. -/
def WalkState.after (s : WalkState) (m : Entering FieldPaths) : WalkState :=
  ⟨(m.run s.table).2, s.onWay, s.found ++ (m.run s.table).1⟩

theorem WalkState.after_nil (s : WalkState) : s.after (pure []) = s := by
  show WalkState.mk s.table s.onWay (s.found ++ []) = s
  rw [List.append_nil]

/-- What is found first comes first. -/
theorem WalkState.after_append (s : WalkState) (m n : Entering FieldPaths) :
    s.after (m >>= fun found => n >>= fun found' => pure (found ++ found')) =
      (s.after m).after n := by
  show WalkState.mk _ s.onWay (s.found ++ (_ ++ _)) = WalkState.mk _ s.onWay (s.found ++ _ ++ _)
  rw [List.append_assoc]
  rfl

/-- What a property contributes, by what it comes to. -/
theorem fieldPaths_eq (inner : TypeId → FieldPath → Entering FieldPaths) (path : FieldPath)
    (p : Property) :
    fieldPaths timestamp inner path p = (readProperty timestamp p).run >>= fun r =>
      match r with
      | none => pure []
      | some (.leaf name) => pure (if name = timestamp then [path ++ [p.name]] else [])
      | some (.structured id) => inner id (path ++ [p.name]) := by
  rw [fieldPaths.eq_def, readProperty]
  cases p.type <;> rfl

theorem fieldPaths_flatten_cons (inner : TypeId → FieldPath → Entering FieldPaths)
    (path : FieldPath) (p : Property) (ps : List Property) :
    List.flatten <$> (p :: ps).mapM (fieldPaths timestamp inner path) =
      fieldPaths timestamp inner path p >>= fun found =>
        List.flatten <$> ps.mapM (fieldPaths timestamp inner path) >>= fun found' =>
          pure (found ++ found') := by
  simp [List.mapM_cons]

/-- A walk that enters the types of properties like the unbounded one. -/
structure Enters (timestamp : String) (onWay types : Finset TypeId)
    (inner : TypeId → FieldPath → Entering FieldPaths) : Prop where
  /-- It enters any of the types. -/
  walks : ∀ {next : TypeId} {path : FieldPath} {s : WalkState}, s.table.WellFormed →
    s.onWay = onWay → s.table.structuredTypes = types → next ∈ types →
      Walks timestamp (.type next) path s (s.after (inner next path))
  /-- It only adds types that are no classes and no interfaces. -/
  ensures : ∀ {next : TypeId} {path : FieldPath} {t : TypeTable}, t.WellFormed →
    Ensures t (inner next path) fun _ _ => True

section Fields

variable {onWay types : Finset TypeId} {inner : TypeId → FieldPath → Entering FieldPaths}
  (hinner : Enters timestamp onWay types inner)

include hinner

/-- Reading a property leaves a state from which the walk may go on. -/
theorem Enters.fieldPaths (ht : t.WellFormed) (path : FieldPath) (p : Property) :
    Ensures t (TypeTable.fieldPaths timestamp inner path p) fun _ _ => True := by
  rw [fieldPaths_eq]
  refine (ensures_readProperty ht timestamp p).bind fun r u _ hu _ => ?_
  rcases r with _ | ⟨name | id⟩
  · exact Ensures.pure hu trivial
  · exact Ensures.pure hu trivial
  · exact hinner.ensures hu

/-- The unbounded walk follows one property like the bounded one. -/
theorem Enters.walks_cons {p : Property} {ps : List Property} {path : FieldPath} {s s' : WalkState}
    (ht : s.table.WellFormed) (hway : s.onWay = onWay) (htypes : s.table.structuredTypes = types)
    (hrest : Walks timestamp (.fields ps) path
      (s.after (TypeTable.fieldPaths timestamp inner path p)) s') :
    Walks timestamp (.fields (p :: ps)) path s s' := by
  obtain ⟨hext, hwf, -⟩ := ensures_readProperty ht timestamp p
  rw [fieldPaths_eq] at hrest
  rcases hread : (readProperty timestamp p).run.run s.table with ⟨r, u⟩
  rw [hread] at hext hwf
  have hafter : ∀ f : Option FieldType → Entering FieldPaths,
      s.after ((readProperty timestamp p).run >>= f) = { s with table := u }.after (f r) := by
    intro f
    rw [WalkState.after, StateT.run_bind, hread]
    rfl
  rw [hafter] at hrest
  rcases r with _ | ⟨name | next⟩
  · rw [WalkState.after_nil] at hrest
    exact .skip hread (by simp) (by simp) hrest
  · by_cases hname : name = timestamp
    · subst hname
      simp only at hrest
      exact .date hread hrest
    · simp only [if_neg hname, WalkState.after_nil] at hrest
      exact .skip hread (by simpa using hname) (by simp) hrest
  · have hnext : next ∈ types := htypes ▸ ht.mem_structuredTypes_of_read hread
    exact .descend hread
      (hinner.walks hwf hway (hext.structuredTypes_eq.trans htypes) hnext) hrest

/-- The unbounded walk follows properties like the bounded one. -/
theorem Enters.walks_fields (ps : List Property) {path : FieldPath} {s : WalkState}
    (ht : s.table.WellFormed) (hway : s.onWay = onWay) (htypes : s.table.structuredTypes = types) :
    Walks timestamp (.fields ps) path s
      (s.after (List.flatten <$> ps.mapM (TypeTable.fieldPaths timestamp inner path))) := by
  induction ps generalizing s with
  | nil =>
    show Walks _ _ _ _ (s.after (pure []))
    rw [WalkState.after_nil]
    exact .done
  | cons p ps ih =>
    obtain ⟨hext, hwf, -⟩ := hinner.fieldPaths ht path p
    rw [fieldPaths_flatten_cons, WalkState.after_append]
    exact hinner.walks_cons ht hway htypes
      (ih hwf hway (hext.structuredTypes_eq.trans htypes))

end Fields

/-- With more steps than there are classes and interfaces left to enter, the bounded walk is the
unbounded one. -/
theorem walks_walk (steps : Nat) (onWay : List TypeId) (id : TypeId) (path : FieldPath)
    {s : WalkState} (ht : s.table.WellFormed) (hway : s.onWay = onWay.toFinset)
    (hsteps : id ∉ onWay → (s.table.structuredTypes \ insert id s.onWay).card < steps) :
    Walks timestamp (.type id) path s (s.after (walk timestamp steps onWay id path)) := by
  induction steps generalizing onWay id path s with
  | zero =>
    have hid : id ∈ onWay := by
      by_contra hid
      exact Nat.not_lt_zero _ (hsteps hid)
    rw [walk, WalkState.after_nil]
    exact .again (by rw [hway, List.mem_toFinset]; exact hid)
  | succ steps ih =>
    rw [walk]
    by_cases hid : id ∈ onWay
    · rw [if_pos hid, WalkState.after_nil]
      exact .again (by rw [hway, List.mem_toFinset]; exact hid)
    have hnot : id ∉ s.onWay := by rwa [hway, List.mem_toFinset]
    -- every class or interface that is entered from here leaves one less
    have hinner : Enters timestamp (insert id s.onWay) s.table.structuredTypes
        (walk timestamp steps (id :: onWay)) := by
      refine ⟨fun {next path s'} ht' hway' htypes hnext => ?_, fun {next path t} ht' => ?_⟩
      · refine ih (id :: onWay) next path ht'
          (by rw [hway', hway, List.toFinset_cons]) fun hnew => ?_
        have hleft : next ∈ s.table.structuredTypes \ insert id s.onWay := by
          rw [Finset.mem_sdiff, hway, ← List.toFinset_cons, List.mem_toFinset]
          exact ⟨hnext, hnew⟩
        have hless := Finset.card_erase_lt_of_mem hleft
        rw [← Finset.sdiff_insert] at hless
        rw [hway', htypes]
        exact Nat.lt_of_lt_of_le hless (Nat.le_of_lt_succ (hsteps hid))
      · have h : Ensures t (walk timestamp steps (id :: onWay) next path) fun found _ =>
            found = t.pathsBelow timestamp steps (id :: onWay) next path :=
          ensures_walk ht' steps (id :: onWay) path (Extends.refl t) ht' rfl
        exact ⟨h.extend, h.wellFormed, trivial⟩
    have hfields : Walks timestamp (.fields (s.table.properties id)) path
        { s with onWay := insert id s.onWay } _ :=
      hinner.walks_fields (s.table.properties id) ht rfl rfl
    have hleave : Walks timestamp (.type id) path s
        ⟨_, (insert id s.onWay).erase id, _⟩ := .enter hnot hfields
    rw [Finset.erase_insert hnot] at hleave
    rw [if_neg hid]
    exact hleave

/-! ### Discovery -/

theorem Way.length_eq {id : TypeId} {places : List Nat} {fields : FieldPath} {types : List TypeId}
    (h : t.Way timestamp id places fields types) : fields.length = types.length := by
  induction h with
  | last => rfl
  | onward _ _ _ _ ih => rw [List.length_cons, List.length_cons, ih]

/-- A way through types that are all different has one property more than there are classes and
interfaces at most. -/
theorem WellFormed.length_of_leads (ht : t.WellFormed) {root : TypeId} {path q : FieldPath}
    {places : List Nat} (h : t.Leads timestamp root path q places) :
    ∃ fields, q = path ++ fields ∧ fields.length ≤ t.structuredCount + 1 := by
  obtain ⟨fields, types, hway, hnodup, hq⟩ := h
  refine ⟨fields, hq, ?_⟩
  obtain ⟨rest, rfl, hstructured⟩ := hway.types_eq ht
  rw [hway.length_eq, List.length_cons]
  exact Nat.succ_le_succ (length_le_structuredCount (List.nodup_cons.1 hnodup).2 hstructured)

/-- On every table that operations lead to the unbounded walk ends, whatever types refer to
themselves or to each other, and discovery finds what it finds: its only outcome is the table that
discovery leaves, no type on the way and the paths of discovery.  Behind the root's path these have
one property more than there are classes and interfaces at most. -/
theorem walks_iff_discover (ops : List Operation) (timestamp : String) (root : TypeId)
    (path : FieldPath) :
    let t := ofOperations ops
    let found := ((discover timestamp root path).run t).1
    let u := ((discover timestamp root path).run t).2
    (∀ s, Walks timestamp (.type root) path ⟨t, ∅, []⟩ s ↔ s = ⟨u, ∅, found⟩) ∧
    ∀ q ∈ found, ∃ fields, q = path ++ fields ∧ fields.length ≤ t.structuredCount + 1 := by
  intro t found u
  have ht : t.WellFormed := wellFormed_ofOperations ops
  have hsteps : (t.structuredTypes \ insert root ∅).card < t.structuredCount + 1 :=
    Nat.lt_succ_of_le ((Finset.card_le_card Finset.sdiff_subset).trans (card_structuredTypes_le t))
  have hwalks : Walks timestamp (.type root) path ⟨t, ∅, []⟩ ⟨u, ∅, found⟩ :=
    walks_walk (s := ⟨t, ∅, []⟩) (t.structuredCount + 1) [] root path ht rfl fun _ => hsteps
  refine ⟨fun s => ⟨fun hs => hs.functional hwalks, ?_⟩, fun q hq => ?_⟩
  · rintro rfl
    exact hwalks
  · have hfound : found = t.pathsBelow timestamp (t.structuredCount + 1) [] root path :=
      ht.run_discover timestamp root path
    rw [hfound, ht.mem_discover] at hq
    obtain ⟨places, hplaces⟩ := hq
    exact ht.length_of_leads hplaces

end DateFields.TypeTable
