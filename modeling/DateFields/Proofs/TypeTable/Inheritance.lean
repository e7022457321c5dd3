import DateFields.Proofs.TypeTable.Members
import Mathlib.Data.Finset.Card

/-!
# Inherited properties

The properties of a type are told by a depth-first walk along the types it takes properties from:
the bases of a class or an interface and the members of an intersection, from left to right, each
behind the type it belongs to.  Of several properties with one name the first counts.

* `Inherits` — a type takes properties from another one, directly or not;
* `Meets` — the walk, told by the types that are still to be met; `Meets.functional` and
  `meets_origins` say that there is one from every type;
* `Unguarded`, `Meets.distinctBy_eq` — without cycles, a plain recursion gives the same properties;
* `Collected`, `collectWithin` — the loop that carries along the types met and the properties found;
  `collectWithin_along` says that it goes the way of the walk;
* `properties_spec` — the properties of a type, on every table.
-/

namespace DateFields

namespace TypeTable

variable {t : TypeTable}

/-! ### Where properties come from -/

/-- The first type takes properties from the second. -/
inductive Inherits (t : TypeTable) : TypeId → TypeId → Prop
  /-- A type has the properties that it lists itself. -/
  | refl (i : TypeId) : Inherits t i i
  /-- A class or an interface has those of its bases, which are told by their names. -/
  | base {i j k : TypeId} {d : TypeDeclaration} {name : String}
    (he : t.entryAt? i = some (.object d)) (hname : name ∈ d.bases)
    (hbase : t.lookup? name = some j) (h : Inherits t j k) : Inherits t i k
  /-- An intersection has those of its members. -/
  | member {i j k : TypeId} {members : List TypeId}
    (he : t.entryAt? i = some (.intersection members)) (hj : j ∈ members) (h : Inherits t j k) :
    Inherits t i k

/-- No type takes properties from itself by way of another one. -/
def Acyclic (t : TypeTable) : Prop := ∀ i, ∀ j ∈ t.parents i, ¬ t.Inherits j i

theorem mem_parents_iff {i j : TypeId} : j ∈ t.parents i ↔
    (∃ d, t.entryAt? i = some (.object d) ∧ ∃ name ∈ d.bases, t.lookup? name = some j) ∨
      ∃ members, t.entryAt? i = some (.intersection members) ∧ j ∈ members := by
  rw [parents]
  cases t.entryAt? i with
  | none => simp
  | some e => cases e <;> simp

theorem Inherits.of_parent {i j k : TypeId} (hj : j ∈ t.parents i) (h : t.Inherits j k) :
    t.Inherits i k := by
  obtain ⟨d, he, name, hname, hbase⟩ | ⟨members, he, hj⟩ := mem_parents_iff.1 hj
  · exact .base he hname hbase h
  · exact .member he hj h

/-- A set of types that holds the parents of its types holds all that they take properties from. -/
theorem Inherits.mem_of_closed {i j : TypeId} (h : t.Inherits i j) {types : List TypeId}
    (hclosed : ∀ k ∈ types, t.parents k ⊆ types) (hi : i ∈ types) : j ∈ types := by
  induction h with
  | refl => exact hi
  | base he hname hbase _ ih =>
    exact ih (hclosed _ hi (mem_parents_iff.2 (.inl ⟨_, he, _, hname, hbase⟩)))
  | member he hj _ ih => exact ih (hclosed _ hi (mem_parents_iff.2 (.inr ⟨_, he, hj⟩)))

/-! ### The walk -/

/-- A depth-first walk: the types met before, those that are still to be met, and the types that are
first met from there on, in order. -/
inductive Meets (t : TypeTable) : List TypeId → List TypeId → List TypeId → Prop
  /-- The walk is over. -/
  | done {seen : List TypeId} : Meets t seen [] []
  /-- A type that has been met is left alone. -/
  | again {seen ids order : List TypeId} {id : TypeId} (hid : id ∈ seen)
    (hrest : Meets t seen ids order) : Meets t seen (id :: ids) order
  /-- After any other type, those that it directly takes properties from come first. -/
  | first {seen ids order : List TypeId} {id : TypeId} (hid : id ∉ seen)
    (hrest : Meets t (seen ++ [id]) (t.parents id ++ ids) order) :
    Meets t seen (id :: ids) (id :: order)

section Meets

variable {seen ids order order' : List TypeId}

/-- There is only one walk. -/
theorem Meets.functional (h : t.Meets seen ids order) (h' : t.Meets seen ids order') :
    order = order' := by
  induction h generalizing order' with
  | done => cases h'; rfl
  | again hid _ ih =>
    cases h' with
    | again _ h' => exact ih h'
    | first hnew _ => exact absurd hid hnew
  | first hnew _ ih =>
    cases h' with
    | again hid _ => exact absurd hid hnew
    | first _ h' => rw [ih h']

/-- No type is met twice. -/
theorem Meets.nodup (h : t.Meets seen ids order) : order.Nodup ∧ ∀ i ∈ order, i ∉ seen := by
  induction h with
  | done => simp
  | again _ _ ih => exact ih
  | first hnew _ ih =>
    obtain ⟨hnodup, hnot⟩ := ih
    refine ⟨List.nodup_cons.2 ⟨fun hmem => hnot _ hmem (by simp), hnodup⟩, ?_⟩
    exact List.forall_mem_cons.2 ⟨hnew, fun i hi hseen => hnot i hi (List.mem_append_left _ hseen)⟩

/-- Only types are met that a type to be met takes properties from. -/
theorem Meets.inherits (h : t.Meets seen ids order) : ∀ i ∈ order, ∃ j ∈ ids, t.Inherits j i := by
  induction h with
  | done => simp
  | again _ _ ih =>
    intro i hi
    obtain ⟨j, hj, hji⟩ := ih i hi
    exact ⟨j, List.mem_cons_of_mem _ hj, hji⟩
  | @first _ ids _ id _ _ ih =>
    refine List.forall_mem_cons.2 ⟨⟨id, List.mem_cons_self, .refl id⟩, fun i hi => ?_⟩
    obtain ⟨j, hj, hji⟩ := ih i hi
    rcases List.mem_append.1 hj with hj | hj
    · exact ⟨id, List.mem_cons_self, .of_parent hj hji⟩
    · exact ⟨j, List.mem_cons_of_mem id hj, hji⟩

/-- Every type to be met has been met in the end, and so have the parents of the types met. -/
theorem Meets.closed (h : t.Meets seen ids order) :
    ids ⊆ seen ++ order ∧ ∀ i ∈ order, t.parents i ⊆ seen ++ order := by
  induction h with
  | done => simp
  | again hid _ ih => exact ⟨List.cons_subset.2 ⟨List.mem_append_left _ hid, ih.1⟩, ih.2⟩
  | @first seen ids order id _ _ ih =>
    rw [List.append_assoc, List.singleton_append, List.append_subset] at ih
    obtain ⟨⟨hparents, hids⟩, hclosed⟩ := ih
    exact ⟨List.cons_subset.2 ⟨by simp, hids⟩, List.forall_mem_cons.2 ⟨hparents, hclosed⟩⟩

/-- The types met from one type are those that it takes properties from. -/
theorem Meets.mem_iff {id : TypeId} (h : t.Meets [] [id] order) {i : TypeId} :
    i ∈ order ↔ t.Inherits id i := by
  constructor
  · intro hi
    obtain ⟨j, hj, hji⟩ := h.inherits i hi
    rwa [List.mem_singleton.1 hj] at hji
  · obtain ⟨hids, hclosed⟩ := h.closed
    exact fun hi => hi.mem_of_closed hclosed (hids List.mem_cons_self)

end Meets

/-! ### The walk that is made -/

/-- From type after type, the types that a walk adds to those met before are the next ones. -/
theorem meets_foldl {walk : List TypeId → TypeId → List TypeId} {seen : List TypeId}
    (h : ∀ seen' id, seen ⊆ seen' → ∃ new, walk seen' id = seen' ++ new ∧
      ∀ ids order, t.Meets (seen' ++ new) ids order → t.Meets seen' (id :: ids) (new ++ order))
    (ps : List TypeId) : ∃ new, ps.foldl walk seen = seen ++ new ∧
      ∀ ids order, t.Meets (seen ++ new) ids order → t.Meets seen (ps ++ ids) (new ++ order) := by
  induction ps generalizing seen with
  | nil => exact ⟨[], by simp, fun ids order h => by simpa using h⟩
  | cons p ps ih =>
    obtain ⟨new, hwalk, hmeets⟩ := h seen p (List.Subset.refl seen)
    have hlater : ∀ seen' id, seen ++ new ⊆ seen' → ∃ new, walk seen' id = seen' ++ new ∧
        ∀ ids order, t.Meets (seen' ++ new) ids order → t.Meets seen' (id :: ids) (new ++ order) :=
      fun seen' id hsub => h seen' id (List.Subset.trans (List.subset_append_left seen new) hsub)
    obtain ⟨new', hfold, hmeets'⟩ := ih hlater
    refine ⟨new ++ new', by rw [List.foldl_cons, hwalk, hfold, List.append_assoc], ?_⟩
    intro ids order hrest
    rw [← List.append_assoc] at hrest
    rw [List.append_assoc]
    exact hmeets _ _ (hmeets' ids order hrest)

/-- A walk that may take more steps than there are unseen types adds the types next met. -/
theorem meets_originsWithin {steps : Nat} {seen : List TypeId} (id : TypeId)
    (h : t.unseen seen < steps) : ∃ new, t.originsWithin steps seen id = seen ++ new ∧
      ∀ ids order, t.Meets (seen ++ new) ids order → t.Meets seen (id :: ids) (new ++ order) := by
  induction steps generalizing seen id with
  | zero => exact absurd h (Nat.not_lt_zero _)
  | succ steps ih =>
    rw [originsWithin]
    split
    · rename_i hid
      exact ⟨[], by simp, fun ids order hrest => .again hid (by simpa using hrest)⟩
    rename_i hnew
    have hparents : ∃ new, (t.parents id).foldl (t.originsWithin steps) (seen ++ [id]) =
        seen ++ [id] ++ new ∧ ∀ ids order, t.Meets (seen ++ [id] ++ new) ids order →
          t.Meets (seen ++ [id]) (t.parents id ++ ids) (new ++ order) := by
      by_cases hid : id < t.entries.length
      · have hlt := unseen_append_lt hid hnew
        refine meets_foldl (fun seen' id' hsub => ih id' ?_) _
        have := unseen_mono (t := t) hsub
        omega
      · rw [parents_of_le (Nat.le_of_not_lt hid)]
        exact ⟨[], by simp, fun ids order hrest => by simpa using hrest⟩
    obtain ⟨new, hfold, hmeets⟩ := hparents
    refine ⟨id :: new, by rw [hfold, List.append_assoc, List.singleton_append], ?_⟩
    intro ids order hrest
    rw [← List.singleton_append (l := new), ← List.append_assoc] at hrest
    exact .first hnew (hmeets ids order hrest)

/-- The types that a type takes properties from are met in this order. -/
theorem meets_origins (t : TypeTable) (id : TypeId) : t.Meets [] [id] (t.origins id) := by
  obtain ⟨new, horigins, hmeets⟩ := meets_originsWithin id (t.unseen_lt_length [])
  rw [List.nil_append] at horigins hmeets
  rw [origins, horigins]
  simpa using hmeets [] [] .done

/-! ### Without cycles -/

/-- The function gives, for every type, its own properties and then those of all the types that it
directly takes properties from, whatever has been met before. -/
def Unguarded (t : TypeTable) (f : TypeId → List Property) : Prop :=
  ∀ i, f i = t.ownProperties i ++ (t.parents i).flatMap f

theorem Acyclic.wellFounded (h : t.Acyclic) : WellFounded fun j i => j ∈ t.parents i := by
  classical
  -- the types of the table that a type takes properties from are fewer for its parents
  let origins (i : TypeId) := (Finset.range t.entries.length).filter (t.Inherits i)
  refine Subrelation.wf (fun {j i} hj => ?_) (measure fun i => (origins i).card).wf
  have hi : i < t.entries.length := by
    by_contra hle
    rw [parents_of_le (Nat.le_of_not_lt hle)] at hj
    cases hj
  have hsub : origins j ⊆ origins i := fun k hk => by
    rw [Finset.mem_filter] at hk ⊢
    exact ⟨hk.1, .of_parent hj hk.2⟩
  have hmem : i ∈ origins i := Finset.mem_filter.2 ⟨Finset.mem_range.2 hi, .refl i⟩
  have hnot : i ∉ origins j := fun hk => h i j hj (Finset.mem_filter.1 hk).2
  exact Finset.card_lt_card (Finset.ssubset_iff_of_subset hsub |>.2 ⟨i, hmem, hnot⟩)

/-- There is no cycle when every type takes properties from earlier ones only. -/
theorem acyclic_of_parents_lt (h : ∀ i, ∀ j ∈ t.parents i, j < i) : t.Acyclic := by
  intro i j hj hji
  have hle : i ≤ j := by
    clear hj
    induction hji with
    | refl => exact Nat.le_refl _
    | base he hname hbase _ ih =>
      exact Nat.le_trans ih
        (Nat.le_of_lt (h _ _ (mem_parents_iff.2 (.inl ⟨_, he, _, hname, hbase⟩))))
    | member he hj _ ih =>
      exact Nat.le_trans ih (Nat.le_of_lt (h _ _ (mem_parents_iff.2 (.inr ⟨_, he, hj⟩))))
  exact Nat.not_lt_of_ge hle (h i j hj)

/-- Without cycles, the recursion comes to an end. -/
theorem Acyclic.exists_unguarded (h : t.Acyclic) : ∃ f, t.Unguarded f := by
  refine ⟨h.wellFounded.fix fun i f => t.ownProperties i ++
    (t.parents i).attach.flatMap fun j => f j.1 j.2, fun i => ?_⟩
  rw [h.wellFounded.fix_eq]
  refine congrArg (_ ++ ·) ?_
  exact List.flatMap_subtype (fun _ _ => rfl) |>.trans (by simp)

variable {f g : TypeId → List Property}

/-- It comes to one end only. -/
theorem Acyclic.unguarded_unique (h : t.Acyclic) (hf : t.Unguarded f) (hg : t.Unguarded g) :
    f = g := by
  funext i
  induction i using h.wellFounded.induction with
  | _ i ih => rw [hf i, hg i, List.flatMap_def, List.flatMap_def, List.map_congr_left ih]

/-- Whatever a type to be met takes from the types met before is among their own properties and those
of the types that are to be met before it. -/
def Ready (t : TypeTable) (f : TypeId → List Property) (seen ids : List TypeId) : Prop :=
  ∀ before id after, ids = before ++ id :: after → ∀ i ∈ seen, t.Inherits id i → ∀ p ∈ f i,
    p.name ∈ (seen.flatMap t.ownProperties ++ before.flatMap f).map PropertyOf.name

theorem Ready.head {seen ids : List TypeId} {id i : TypeId} (h : t.Ready f seen (id :: ids))
    (hi : i ∈ seen) (hinherits : t.Inherits id i) :
    ∀ p ∈ f i, p.name ∈ (seen.flatMap t.ownProperties).map PropertyOf.name := by
  simpa using h [] id ids rfl i hi hinherits

theorem Ready.again {seen ids : List TypeId} {id : TypeId} (h : t.Ready f seen (id :: ids))
    (hid : id ∈ seen) : t.Ready f seen ids := by
  rintro before j after rfl i hi hji p hp
  have hmem := h (id :: before) j after rfl i hi hji p hp
  simp only [List.flatMap_cons, List.map_append, List.mem_append] at hmem ⊢
  rcases hmem with hmem | hmem | hmem
  · exact .inl hmem
  · obtain ⟨q, hq, hqp⟩ := List.mem_map.1 hmem
    exact .inl (hqp ▸ h.head hid (.refl id) q hq)
  · exact .inr hmem

theorem Ready.first {seen ids : List TypeId} {id : TypeId} (hacyclic : t.Acyclic)
    (hf : t.Unguarded f) (h : t.Ready f seen (id :: ids)) :
    t.Ready f (seen ++ [id]) (t.parents id ++ ids) := by
  intro before j after hids i hi hji p hp
  have hj : j ∈ t.parents id ∨ ∃ rest, before = t.parents id ++ rest ∧ ids = rest ++ j :: after := by
    rcases List.append_eq_append_iff.1 hids with ⟨rest, hbefore, hrest⟩ | ⟨rest, hparents, hrest⟩
    · exact .inr ⟨rest, hbefore, hrest⟩
    · rcases rest with _ | ⟨k, rest⟩
      · exact .inr ⟨[], by simpa using hparents.symm, hrest.symm⟩
      · obtain ⟨rfl, -⟩ := List.cons.inj hrest
        exact .inl (hparents ▸ by simp)
  rcases List.mem_append.1 hi with hi | hi
  · rcases hj with hj | ⟨rest, rfl, rfl⟩
    · have hmem := h.head hi (.of_parent hj hji) p hp
      simp only [List.flatMap_append, List.map_append, List.mem_append]
      exact .inl (.inl hmem)
    · simpa [hf id] using h (id :: rest) j after rfl i hi hji p hp
  · obtain rfl := List.mem_singleton.1 hi
    rcases hj with hj | ⟨rest, rfl, rfl⟩
    · -- a parent of the type does not take properties from it
      exact absurd hji (hacyclic _ j hj)
    · refine List.mem_map_of_mem ?_
      rw [hf] at hp
      simp only [List.flatMap_append, List.flatMap_singleton, List.mem_append] at hp ⊢
      rcases hp with hp | hp
      · exact .inl (.inr hp)
      · exact .inr (.inl hp)

/-- Without cycles, the guard only leaves out properties whose names have been there before. -/
theorem Meets.distinctBy_eq {seen ids order : List TypeId} (h : t.Meets seen ids order)
    (hacyclic : t.Acyclic) (hf : t.Unguarded f) (hready : t.Ready f seen ids) :
    distinctBy PropertyOf.name ((seen ++ order).flatMap t.ownProperties) =
      distinctBy PropertyOf.name (seen.flatMap t.ownProperties ++ ids.flatMap f) := by
  induction h with
  | done => simp
  | again hid _ ih =>
    rw [ih (hready.again hid), List.flatMap_cons, ← List.append_assoc,
      distinctBy_append_append (hready.head hid (.refl _))]
  | first _ _ ih =>
    have ih := ih (hready.first hacyclic hf)
    simpa [hf _] using ih

/-! ### The loop -/

/-- The state of the loop that collects properties. -/
structure Collected where
  /-- The types met so far. -/
  seen : List TypeId
  /-- The properties found so far. -/
  found : List Property

/-- The state with one more type met. -/
def Collected.meet (c : Collected) (id : TypeId) : Collected := { c with seen := c.seen ++ [id] }

/-- The state with more properties, each only if none of its name has been found. -/
def Collected.push (c : Collected) (properties : List Property) : Collected :=
  { c with found := properties.foldl (pushNew PropertyOf.name) c.found }

/-- The loop, at most so many calls deep.  A type that has not been met adds the properties that it
lists, and then come its bases or its members, one after the other. -/
def collectWithin (t : TypeTable) : Nat → Collected → TypeId → Collected
  | 0, c, _ => c
  | steps + 1, c, id =>
    if id ∈ c.seen then c
    else match t.entryAt? id with
      | some (.object d) => d.bases.foldl (fun c name =>
          match t.lookup? name with
          | some base => collectWithin t steps c base
          | none => c) ((c.meet id).push d.properties)
      | some (.literal members) => (c.meet id).push members
      | some (.intersection members) => members.foldl (collectWithin t steps) (c.meet id)
      | _ => c.meet id

/-- One call of the loop. -/
theorem collectWithin_succ (t : TypeTable) (steps : Nat) (c : Collected) (id : TypeId) :
    t.collectWithin (steps + 1) c id = if id ∈ c.seen then c else
      (t.parents id).foldl (t.collectWithin steps) ((c.meet id).push (t.ownProperties id)) := by
  rw [collectWithin, parents, ownProperties]
  split
  · rfl
  · cases t.entryAt? id with
    | none => rfl
    | some e =>
      cases e with
      | object d =>
        -- the loop passes over a base that is not known, and the parents leave it out
        dsimp only
        rw [List.foldl_filterMap]
        congr 1
        funext c name
        cases t.lookup? name <;> rfl
      | _ => rfl

/-- The state of the loop when these types have been met. -/
def along (t : TypeTable) (seen : List TypeId) : Collected :=
  ⟨seen, distinctBy PropertyOf.name (seen.flatMap t.ownProperties)⟩

theorem meet_along (t : TypeTable) (seen : List TypeId) (id : TypeId) :
    ((t.along seen).meet id).push (t.ownProperties id) = t.along (seen ++ [id]) := by
  rw [Collected.push, Collected.meet, along, foldl_pushNew, along, List.flatMap_append,
    List.flatMap_singleton]

/-- The loop meets the types of the walk, and has found what they list. -/
theorem collectWithin_along (t : TypeTable) (steps : Nat) (seen : List TypeId) (id : TypeId) :
    t.collectWithin steps (t.along seen) id = t.along (t.originsWithin steps seen id) := by
  induction steps generalizing seen id with
  | zero => rfl
  | succ steps ih =>
    rw [collectWithin_succ, originsWithin, meet_along, List.foldl_hom t.along ih]
    exact (apply_ite t.along _ _ _).symm

/-- However deep the loop may go, past the number of types, it finds the properties. -/
theorem found_collectWithin (t : TypeTable) (more : Nat) (id : TypeId) :
    (t.collectWithin (t.entries.length + 1 + more) ⟨[], []⟩ id).found = t.properties id := by
  have hlt := t.unseen_lt_length []
  have horigins : t.originsWithin (t.entries.length + 1 + more) [] id = t.origins id :=
    originsWithin_eq (Nat.lt_add_right more hlt) hlt
  have hloop := t.collectWithin_along (t.entries.length + 1 + more) [] id
  rw [horigins] at hloop
  exact congrArg Collected.found hloop

/-! ### The properties of a type -/

/-- The properties of a type are the first of each name along the one depth-first walk from it, which
meets the types that it takes properties from, each once.  Without cycles they are what the plain
recursion gives, of several properties with one name the first.  The loop that carries along the types
met and the properties found ends with these properties, whatever more it may call itself. -/
theorem properties_spec (t : TypeTable) (id : TypeId) :
    ((t.properties id).map PropertyOf.name).Nodup ∧
    (∀ name, name ∈ (t.properties id).map PropertyOf.name ↔
      ∃ i, t.Inherits id i ∧ name ∈ (t.ownProperties i).map PropertyOf.name) ∧
    (∃ order, (∀ o, t.Meets [] [id] o ↔ o = order) ∧ order.Nodup ∧
      (∀ i, i ∈ order ↔ t.Inherits id i) ∧
      (∀ p, p ∈ t.properties id ↔ ∃ before i after, order = before ++ i :: after ∧
        (t.ownProperties i).find? (·.name = p.name) = some p ∧
        ∀ j ∈ before, p.name ∉ (t.ownProperties j).map PropertyOf.name) ∧
      (t.properties id).Pairwise fun p q =>
        (order.flatMap t.ownProperties).findIdx (·.name = p.name) <
          (order.flatMap t.ownProperties).findIdx (·.name = q.name)) ∧
    (t.Acyclic → ∃ f, (∀ g, t.Unguarded g ↔ g = f) ∧
      t.properties id = distinctBy PropertyOf.name (f id)) ∧
    ∀ more, (t.collectWithin (t.entries.length + 1 + more) ⟨[], []⟩ id).found = t.properties id := by
  have hmeets := meets_origins t id
  refine ⟨nodup_map_distinctBy _ _, fun name => ?_, ⟨t.origins id, fun o => ?_, hmeets.nodup.1,
    fun i => hmeets.mem_iff, fun p => ?_, pairwise_distinctBy _⟩, fun hacyclic => ?_,
    fun more => t.found_collectWithin more id⟩
  · rw [properties, mem_map_distinctBy, List.map_flatMap, List.mem_flatMap]
    simp only [hmeets.mem_iff]
  · exact ⟨fun h => h.functional hmeets, fun h => h ▸ hmeets⟩
  · rw [properties, mem_distinctBy_iff, List.find?_flatMap, List.findSome?_eq_some_iff]
    have hnone : ∀ j, (t.ownProperties j).find? (·.name = p.name) = none ↔
        p.name ∉ (t.ownProperties j).map PropertyOf.name := by
      intro j
      simp only [List.find?_eq_none, List.mem_map, decide_eq_true_eq, not_exists, not_and]
    simp only [hnone]
  · obtain ⟨f, hf⟩ := hacyclic.exists_unguarded
    have h := hmeets.distinctBy_eq hacyclic hf (by simp [Ready])
    refine ⟨f, fun g => ⟨fun hg => hacyclic.unguarded_unique hg hf, fun h => h ▸ hf⟩, ?_⟩
    simpa [properties] using h

end TypeTable

namespace Sample

/-- An interface that extends two others which have a base in common, and that declares one of its
properties once more. -/
def diamond : List TypeDeclaration :=
  [⟨"Entry", .ofInterface, [], [⟨"at", some (.reference "Date" [])⟩, ⟨"id", none⟩]⟩,
    ⟨"Order", .ofInterface, ["Entry"], [⟨"placed", some (.reference "Date" [])⟩]⟩,
    ⟨"Refund", .ofInterface, ["Entry", "Missing"], [⟨"placed", some (.keyword "string")⟩]⟩,
    ⟨"Claim", .ofClass, ["Order", "Refund"], [⟨"at", some (.keyword "string")⟩]⟩]

/-- The plain recursion gives the properties of the common base twice. -/
theorem properties_of_diamond :
    let t := TypeTable.ofDeclarations diamond []
    t.Acyclic ∧ (t.properties 16 = [⟨"at", some (.keyword "string")⟩,
      ⟨"placed", some (.reference "Date" [])⟩, ⟨"id", none⟩]) ∧
    ∃ f, t.Unguarded f ∧ ((f 16).map PropertyOf.name =
      ["at", "placed", "at", "id", "placed", "at", "id"]) ∧
      t.properties 16 = distinctBy PropertyOf.name (f 16) := by
  intro t
  have hknown : ∀ i < t.entries.length, ∀ j ∈ t.parents i, j < i := by decide +kernel
  have hparents : ∀ i, ∀ j ∈ t.parents i, j < i := by
    intro i j hj
    by_cases hi : i < t.entries.length
    · exact hknown i hi j hj
    · rw [TypeTable.parents_of_le (Nat.le_of_not_lt hi)] at hj
      simp at hj
  have hacyclic : t.Acyclic := TypeTable.acyclic_of_parents_lt hparents
  obtain ⟨-, -, -, hplain, -⟩ := TypeTable.properties_spec t 16
  obtain ⟨f, hf, heq⟩ := hplain hacyclic
  have hf : t.Unguarded f := (hf f).2 rfl
  have hall : f 16 = [16, 14, 13, 15, 13].flatMap t.ownProperties := by
    obtain ⟨h13, h14, h15, h16⟩ : t.parents 13 = [] ∧ t.parents 14 = [13] ∧ t.parents 15 = [13] ∧
      t.parents 16 = [14, 15] := by decide +kernel
    simp [hf 16, hf 15, hf 14, hf 13, h16, h15, h14, h13]
  exact ⟨hacyclic, by decide +kernel, f, hf, by rw [hall]; decide +kernel, heq⟩

end Sample

end DateFields
