import DateFields.Proofs.TypeTable.Members

/-!
# Types without null

Taking `null` and `undefined` out of a type leaves a type that they cannot be taken out of again,
and changes nothing about the types that are already in the table.

* `NullFree` — neither is the type, nor a member of it;
* `Stripped` — what is left of a type, one case for every kind of type it is taken out of;
* `entryAt?_intern` — an entered type has the entry it was entered for;
* `WellFormed.stripped_nonNullable` — taking them out leaves what it should;
* `NullFree.run_nonNullable` — a type that is free of them is left alone, and so is the table;
* `nonNullable_spec` — all of this for every table that operations lead to.
-/

namespace DateFields.TypeTable

variable {t u : TypeTable} {id r : TypeId}

/-! ### What is left -/

/-- The type is neither `null` nor `undefined`, and if it is a union, it has members, and these are
neither. -/
structure NullFree (t : TypeTable) (id : TypeId) : Prop where
  /-- Neither is the type. -/
  not_nullish : t.isNullish id = false
  /-- Neither is a member of it. -/
  members : ∀ ms, t.entryAt? id = some (.union ms) → ms ≠ [] ∧ ∀ m ∈ ms, t.isNullish m = false

/-- The type is the one named `never`: what is declared under this name, and else the primitive
type. -/
def IsNever (t : TypeTable) (id : TypeId) : Prop :=
  t.entryAt? id = some ((t.declared? "never").elim (.primitive "never") .object)

/-- What is left of a type of `t` with `null` and `undefined` taken out is a type of `u`. -/
inductive Stripped (t u : TypeTable) : TypeId → TypeId → Prop
  /-- Nothing of the one or the other. -/
  | nullish {id r : TypeId} (hid : t.isNullish id = true) (hr : t.IsNever r) : Stripped t u id r
  /-- Nothing of a union that has no other members. -/
  | nothing {id r : TypeId} {ms : List TypeId} (hid : t.entryAt? id = some (.union ms))
    (hkept : ms.filter (!t.isNullish ·) = []) (hr : t.IsNever r) : Stripped t u id r
  /-- The only other member of a union. -/
  | single {id m : TypeId} {ms : List TypeId} (hid : t.entryAt? id = some (.union ms))
    (hkept : ms.filter (!t.isNullish ·) = [m]) : Stripped t u id m
  /-- The union of the other members, in their order. -/
  | several {id r : TypeId} {ms : List TypeId} (hid : t.entryAt? id = some (.union ms))
    (hkept : 2 ≤ (ms.filter (!t.isNullish ·)).length)
    (hr : u.entryAt? r = some (.union (ms.filter (!t.isNullish ·)))) : Stripped t u id r
  /-- Any other type is left as it is. -/
  | same {id : TypeId} (hunion : t.isUnion id = false) (hnull : t.isNullish id = false) :
    Stripped t u id id

theorem isNullish_congr {i j : TypeId} (h : u.entryAt? i = t.entryAt? j) :
    u.isNullish i = t.isNullish j := by
  rw [isNullish, isNullish, h]

/-! ### `never` -/

theorem WellFormed.isNever_never (ht : t.WellFormed) : t.IsNever t.never := by
  obtain ⟨id, hid⟩ := ht.lookup?_never
  rw [IsNever, never, hid, Option.getD_some]
  rcases lookup?_some hid with ⟨d, hd, hname⟩ | hprimitive
  · rw [ht.declared?_eq_some_iff.2 ⟨id, hd, hname⟩, hd]
    rfl
  · cases hdeclared : t.declared? "never" with
    | none => exact hprimitive
    | some d =>
      -- the name would lead to the declared type, not to the primitive one
      obtain ⟨j, hj, hname⟩ := ht.declared?_eq_some_iff.1 hdeclared
      have hlookup := ht.lookup?_object hj
      rw [hname, hid, Option.some.injEq] at hlookup
      rw [hlookup, hj] at hprimitive
      cases hprimitive

theorem IsNever.lt (h : t.IsNever r) : r < t.entries.length := lt_of_entryAt? h

/-! ### Types without null -/

theorem nullFree_of_isUnion (hunion : t.isUnion id = false) (hnull : t.isNullish id = false) :
    t.NullFree id := by
  refine ⟨hnull, fun ms he => ?_⟩
  rw [isUnion_iff.2 ⟨ms, he⟩] at hunion
  cases hunion

theorem IsNever.nullFree (h : t.IsNever r) : t.NullFree r := by
  rw [IsNever] at h
  cases hdeclared : t.declared? "never" <;> rw [hdeclared] at h <;>
    exact nullFree_of_isUnion (by rw [isUnion, h]; rfl) (by rw [isNullish, h]; rfl)

/-- A type stays free of `null` and `undefined` when others are entered. -/
theorem NullFree.extend (h : t.NullFree id) (ht : t.WellFormed) (htu : t.Extends u)
    (hid : id < t.entries.length) : u.NullFree id := by
  refine ⟨by rw [isNullish_congr (htu.entryAt?_eq hid), h.not_nullish], fun ms he => ?_⟩
  rw [htu.entryAt?_eq hid] at he
  refine ⟨(h.members ms he).1, fun m hm => ?_⟩
  have hlt := Nat.lt_trans (ht.parts_lt he m hm) hid
  rw [isNullish_congr (htu.entryAt?_eq hlt), (h.members ms he).2 m hm]

/-! ### Unions of members -/

theorem entryAt?_intern (t : TypeTable) (e : Entry) :
    ((intern e).run t).2.entryAt? ((intern e).run t).1 = some e := by
  cases hfind : t.entries.findIdx? (· == e) with
  | none =>
    rw [run_intern_new hfind]
    exact entryAt?_append_length
  | some id =>
    rw [run_intern_old hfind]
    obtain ⟨hlt, hp, -⟩ := List.findIdx?_eq_some_iff_getElem.1 hfind
    exact (List.getElem?_eq_getElem hlt).trans (congrArg some (eq_of_beq hp))

/-- An entry that is there is not entered again. -/
theorem WellFormed.run_intern_of_entryAt? (ht : t.WellFormed) {e : Entry}
    (he : t.entryAt? id = some e) : (intern e).run t = (id, t) := by
  cases hfind : t.entries.findIdx? (· == e) with
  | none =>
    have hnone := List.findIdx?_eq_none_iff.1 hfind e (List.mem_of_getElem? he)
    simp at hnone
  | some j =>
    have hj := entryAt?_intern t e
    rw [run_intern_old hfind] at hj ⊢
    rw [show j = id from ht.entry_inj hj he]

/-- Different types that are no unions are combined as they are. -/
theorem run_unionOf {ms : List TypeId} (hnodup : ms.Nodup) (hflat : ∀ m ∈ ms, t.isUnion m = false) :
    (unionOf ms).run t = (combine .union ms).run t := by
  have hmembers : ms.flatMap t.unionMembers = ms := by
    rw [List.flatMap_congr fun m hm => unionMembers_of_isUnion (hflat m hm),
      List.flatMap_singleton']
  rw [unionOf, run_get_bind, hmembers, distinctBy_of_nodup _ (by rwa [List.map_id])]

theorem combine_of_two_le {ms : List TypeId} (h : 2 ≤ ms.length) :
    combine .union ms = intern (.union ms) := by
  match ms with
  | _ :: _ :: _ => rfl

/-- The members of a union that are kept are combined as they are. -/
theorem WellFormed.run_unionOf_filter (ht : t.WellFormed) {ms : List TypeId}
    (he : t.entryAt? id = some (.union ms)) (p : TypeId → Bool) :
    (unionOf (ms.filter p)).run t = (combine .union (ms.filter p)).run t :=
  run_unionOf ((ht.flat he).1.filter p) fun m hm =>
    (ht.flat he).2.2 m (List.mem_of_mem_filter hm)

/-! ### Taking null out -/

/-- Taking `null` and `undefined` out of a type leaves what it should. -/
theorem WellFormed.stripped_nonNullable (ht : t.WellFormed) (id : TypeId) :
    t.Stripped ((nonNullable id).run t).2 id ((nonNullable id).run t).1 := by
  rw [nonNullable, run_get_bind]
  split
  · rename_i ms he
    have hrun := ht.run_unionOf_filter he (!t.isNullish ·)
    rcases hkept : ms.filter (!t.isNullish ·) with _ | ⟨m, _ | ⟨n, kept⟩⟩
    · exact .nothing he hkept ht.isNever_never
    · rw [hkept] at hrun
      simp only [hrun]
      exact .single he hkept
    · rw [hkept] at hrun
      simp only [hrun]
      refine .several he (by simp [hkept]) ?_
      rw [hkept]
      exact entryAt?_intern t _
  · rename_i hne
    by_cases hnull : t.isNullish id = true
    · rw [if_pos hnull]
      exact .nullish hnull ht.isNever_never
    · rw [if_neg hnull]
      refine .same ?_ (Bool.not_eq_true _ ▸ hnull)
      rw [← Bool.not_eq_true, isUnion_iff]
      exact not_exists.2 hne

/-- What is left is free of `null` and `undefined`. -/
theorem Stripped.nullFree (h : t.Stripped u id r) (ht : t.WellFormed) (htu : t.Extends u)
    (hid : id < t.entries.length) : u.NullFree r := by
  -- what is kept of a union are types of the old table, no unions and neither of the two
  have hkept : ∀ {ms : List TypeId} {m : TypeId}, t.entryAt? id = some (.union ms) →
      m ∈ ms.filter (!t.isNullish ·) → u.NullFree m := by
    intro ms m he hm
    obtain ⟨hm, hnull⟩ := List.mem_filter.1 hm
    exact (nullFree_of_isUnion ((ht.flat he).2.2 m hm) (by simpa using hnull)).extend ht htu
      (Nat.lt_trans (ht.parts_lt he m hm) hid)
  cases h with
  | nullish _ hr => exact hr.nullFree.extend ht htu hr.lt
  | nothing _ _ hr => exact hr.nullFree.extend ht htu hr.lt
  | single he hm => exact hkept he (by rw [hm]; exact List.mem_singleton_self r)
  | several he hlength hr =>
    refine ⟨by rw [isNullish, hr], fun ns hns => ?_⟩
    obtain rfl : _ = ns := by simpa using hr.symm.trans hns
    exact ⟨List.ne_nil_of_length_pos (by omega), fun m hm => (hkept he hm).not_nullish⟩
  | same hunion hnull => exact (nullFree_of_isUnion hunion hnull).extend ht htu hid

/-- A type that is free of `null` and `undefined` is left alone, and so is the table. -/
theorem NullFree.run_nonNullable (h : t.NullFree id) (ht : t.WellFormed) :
    (nonNullable id).run t = (id, t) := by
  rw [nonNullable, run_get_bind]
  split
  · rename_i ms he
    obtain ⟨hne, hnull⟩ := h.members ms he
    have hall : ms.filter (!t.isNullish ·) = ms :=
      List.filter_eq_self.2 fun m hm => by rw [hnull m hm]; rfl
    have hlength : 2 ≤ ms.length := by
      have hpos := List.length_pos_of_ne_nil hne
      have hone := (ht.flat he).2.1
      omega
    have hrun := ht.run_unionOf_filter he (!t.isNullish ·)
    rw [hall, combine_of_two_le hlength, ht.run_intern_of_entryAt? he] at hrun
    rw [hall]
    cases ms with
    | nil => exact absurd rfl hne
    | cons => exact hrun
  · rw [h.not_nullish]
    rfl

/-! ### The table -/

theorem Extends.typeText_eq (h : t.Extends u) (ht : t.WellFormed) (hu : u.WellFormed)
    (hid : id < t.entries.length) : u.typeText id = t.typeText id := by
  rw [hu.typeText_eq, ht.typeText_eq, h.form_eq ht hid]

theorem Extends.isStructured_eq (h : t.Extends u) (hid : id < t.entries.length) :
    u.isStructured id = t.isStructured id := by
  rw [isStructured, isStructured, h.entryAt?_eq hid]

/-- On every table that operations lead to, what is left of a type without `null` and `undefined` is
what it should be; it is free of them, so that taking them out once more does nothing; and the
types of the table keep their spelling, their properties and their structure. -/
theorem nonNullable_spec (ops : List Operation) (id : TypeId) :
    let t := ofOperations ops
    let r := ((nonNullable id).run t).1
    let u := ((nonNullable id).run t).2
    t.Stripped u id r ∧ u.NullFree r ∧ (nonNullable r).run u = (r, u) ∧
    ∀ j < t.entries.length, u.typeText j = t.typeText j ∧ u.properties j = t.properties j ∧
      u.isStructured j = t.isStructured j := by
  intro t r u
  have ht : t.WellFormed := wellFormed_ofOperations ops
  have hu : u.WellFormed := ht.apply (.nonNullable id)
  have htu : t.Extends u := grows_nonNullable id t
  have hstripped : t.Stripped u id r := ht.stripped_nonNullable id
  have hfree : u.NullFree r := by
    rcases Nat.lt_or_ge id t.entries.length with hid | hid
    · exact hstripped.nullFree ht htu hid
    · -- what is no type of the table is left as it is
      have hnone : t.entryAt? id = none := List.getElem?_eq_none hid
      have hrun : (r, u) = (id, t) := run_nonNullable_of_none hnone
      obtain ⟨hr, hu⟩ := Prod.mk.inj hrun
      rw [hr, hu]
      exact nullFree_of_isUnion (by rw [isUnion, hnone]) (by rw [isNullish, hnone])
  exact ⟨hstripped, hfree, hfree.run_nonNullable hu, fun j hj =>
    ⟨htu.typeText_eq ht hu hj, htu.properties_eq ht hu hj, htu.isStructured_eq hj⟩⟩

/-- Of `Date | null` the class is left, and of `null | undefined` it is `never`. -/
example : let t := ofOperations [.resolve (.union [.keyword "Date", .keyword "null"]),
      .resolve (.union [.keyword "null", .keyword "undefined"])]
    ((nonNullable 13).run t).1 = 12 ∧ ((nonNullable 14).run t).1 = 11 := by decide +kernel

end DateFields.TypeTable
