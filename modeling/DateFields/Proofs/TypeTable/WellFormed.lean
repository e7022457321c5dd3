import DateFields.Proofs.TypeTable.Growth

/-!
# Well-formed tables

Every table that is built by declarations and questions is well formed: a type is made from types
with smaller numbers, unions and intersections are flat, and no type is entered twice.

* `WellFormed` — the invariant;
* `wellFormed_new`, `WellFormed.declare`, `WellFormed.bind` — the first table has it, and
  declarations and call bindings keep it;
* `WellFormed.append` — so does a new entry that fits.
-/

namespace DateFields.TypeTable

/-- The types that an entry is made from. -/
def Entry.parts : Entry → List TypeId
  | .array e => [e]
  | .union members => members
  | .intersection members => members
  | _ => []

/-- A union has no union among its members, each member once, and never exactly one; an
intersection likewise. -/
def Flat (t : TypeTable) : Entry → Prop
  | .union members => members.Nodup ∧ members.length ≠ 1 ∧ ∀ m ∈ members, t.isUnion m = false
  | .intersection members =>
    members.Nodup ∧ members.length ≠ 1 ∧ ∀ m ∈ members, t.isIntersection m = false
  | _ => True

/-- The invariant of the type table. -/
structure WellFormed (t : TypeTable) : Prop where
  /-- A type is made from earlier types. -/
  parts_lt : ∀ {id : TypeId} {e : Entry}, t.entryAt? id = some e → ∀ m ∈ e.parts, m < id
  /-- Unions and intersections are flat. -/
  flat : ∀ {id : TypeId} {e : Entry}, t.entryAt? id = some e → t.Flat e
  /-- No entry stands at two places. -/
  entry_inj : ∀ {i j : TypeId} {e : Entry}, t.entryAt? i = some e → t.entryAt? j = some e → i = j
  /-- No two classes or interfaces have the same name. -/
  object_inj : ∀ {i j : TypeId} {d d' : TypeDeclaration}, t.entryAt? i = some (.object d) →
    t.entryAt? j = some (.object d') → d.name = d'.name → i = j
  /-- The primitive types are there. -/
  primitive : ∀ name ∈ primitiveNames, ∃ id, t.entryAt? id = some (.primitive name)

variable {t u : TypeTable}

theorem Flat.congr {e : Entry} (h : t.Flat e) (hu : ∀ m ∈ e.parts, u.isUnion m = t.isUnion m)
    (hi : ∀ m ∈ e.parts, u.isIntersection m = t.isIntersection m) : u.Flat e := by
  cases e with
  | union members => exact ⟨h.1, h.2.1, fun m hm => by rw [hu m hm]; exact h.2.2 m hm⟩
  | intersection members => exact ⟨h.1, h.2.1, fun m hm => by rw [hi m hm]; exact h.2.2 m hm⟩
  | primitive | object | literal | array => trivial

theorem isUnion_congr {i j : TypeId} (h : u.entryAt? i = t.entryAt? j) : u.isUnion i = t.isUnion j := by
  rw [isUnion, isUnion, h]

theorem isIntersection_congr {i j : TypeId} (h : u.entryAt? i = t.entryAt? j) :
    u.isIntersection i = t.isIntersection j := by
  rw [isIntersection, isIntersection, h]

/-! ### The first table -/

theorem entries_new : new.entries = primitiveNames.map Entry.primitive ++
    [.object ⟨"Date", .ofInterface, [], []⟩] := by rfl

/-- The first types are the primitive ones and `Date`. -/
theorem entryAt?_new {id : TypeId} {e : Entry} (h : new.entryAt? id = some e) :
    (∃ name ∈ primitiveNames, e = .primitive name) ∨ e = .object ⟨"Date", .ofInterface, [], []⟩ := by
  have hmem : e ∈ new.entries := List.mem_of_getElem? h
  rw [entries_new, List.mem_append, List.mem_map, List.mem_singleton] at hmem
  rcases hmem with ⟨name, hname, rfl⟩ | he
  · exact .inl ⟨name, hname, rfl⟩
  · exact .inr he

theorem wellFormed_new : new.WellFormed := by
  have hnodup : new.entries.Nodup := by decide
  -- no type of the first table is made from others
  have hkind : ∀ {id e}, new.entryAt? id = some e → e.parts = [] ∧ new.Flat e := by
    intro id e h
    rcases entryAt?_new h with ⟨name, -, rfl⟩ | rfl <;> exact ⟨rfl, trivial⟩
  have hobject : ∀ {id d}, new.entryAt? id = some (.object d) →
      d = ⟨"Date", .ofInterface, [], []⟩ := by
    intro id d h
    rcases entryAt?_new h with ⟨name, -, hd⟩ | hd
    · cases hd
    · cases hd; rfl
  have hinj : ∀ {i j e}, new.entryAt? i = some e → new.entryAt? j = some e → i = j := fun hi hj =>
    (List.getElem?_inj (lt_of_entryAt? hi) hnodup).1 (hi.trans hj.symm)
  refine ⟨fun h m hm => ?_, fun h => (hkind h).2, hinj, fun hi hj _ => ?_, fun name hname => ?_⟩
  · rw [(hkind h).1] at hm
    cases hm
  · rw [hobject hi] at hi
    rw [hobject hj] at hj
    exact hinj hi hj
  · have : Entry.primitive name ∈ new.entries := by
      rw [entries_new]
      exact List.mem_append_left _ (List.mem_map.2 ⟨name, hname, rfl⟩)
    exact List.mem_iff_getElem?.1 this

/-! ### New entries -/

theorem entryAt?_append {e : Entry} {id : TypeId} {found : Entry} :
    ({ t with entries := t.entries ++ [e] } : TypeTable).entryAt? id = some found ↔
      t.entryAt? id = some found ∨ (id = t.entries.length ∧ found = e) := by
  rw [entryAt?, entryAt?]
  rcases Nat.lt_trichotomy id t.entries.length with h | rfl | h
  · simp [List.getElem?_append_left h, Nat.ne_of_lt h]
  · simp [eq_comm]
  · have hlen : (t.entries ++ [e]).length ≤ id := by simpa using Nat.succ_le_of_lt h
    simp [List.getElem?_eq_none hlen, List.getElem?_eq_none (Nat.le_of_lt h), Nat.ne_of_gt h]

theorem entryAt?_append_length {e : Entry} :
    ({ t with entries := t.entries ++ [e] } : TypeTable).entryAt? t.entries.length = some e :=
  entryAt?_append.2 (.inr ⟨rfl, rfl⟩)

/-- A new entry may be appended when its parts are there, it is flat, and neither it nor a class or
an interface of its name is there already. -/
theorem WellFormed.append (h : t.WellFormed) {e : Entry} (hparts : ∀ m ∈ e.parts, m < t.entries.length)
    (hflat : t.Flat e) (hnew : ∀ id, t.entryAt? id ≠ some e)
    (hname : ∀ d, e = .object d → ∀ id d', t.entryAt? id = some (.object d') → d'.name ≠ d.name) :
    ({ t with entries := t.entries ++ [e] } : TypeTable).WellFormed := by
  have hold : ∀ id, id < t.entries.length →
      ({ t with entries := t.entries ++ [e] } : TypeTable).entryAt? id = t.entryAt? id := fun id hid => by
    rw [entryAt?, entryAt?, List.getElem?_append_left hid]
  -- flatness only asks for the parts, and these are old
  have hflat' : ∀ e', (∀ m ∈ e'.parts, m < t.entries.length) → t.Flat e' →
      ({ t with entries := t.entries ++ [e] } : TypeTable).Flat e' := fun e' hlt hf =>
    hf.congr (fun m hm => isUnion_congr (hold m (hlt m hm)))
      fun m hm => isIntersection_congr (hold m (hlt m hm))
  refine ⟨fun hid m hm => ?_, fun hid => ?_, fun hi hj => ?_, fun hi hj hn => ?_,
    fun name hname => ?_⟩
  · rcases entryAt?_append.1 hid with hid | ⟨rfl, rfl⟩
    · exact h.parts_lt hid m hm
    · exact hparts m hm
  · rcases entryAt?_append.1 hid with hid | ⟨-, rfl⟩
    · exact hflat' _ (fun m hm => Nat.lt_trans (h.parts_lt hid m hm) (lt_of_entryAt? hid)) (h.flat hid)
    · exact hflat' _ hparts hflat
  · rcases entryAt?_append.1 hi with hi | ⟨rfl, rfl⟩ <;> rcases entryAt?_append.1 hj with hj | ⟨rfl, he⟩
    · exact h.entry_inj hi hj
    · exact absurd (he ▸ hi) (hnew _)
    · exact absurd hj (hnew _)
    · rfl
  · rcases entryAt?_append.1 hi with hi | ⟨rfl, he⟩ <;> rcases entryAt?_append.1 hj with hj | ⟨rfl, he'⟩
    · exact h.object_inj hi hj hn
    · exact absurd hn (hname _ he'.symm _ _ hi)
    · exact absurd hn.symm (hname _ he.symm _ _ hj)
    · rfl
  · obtain ⟨id, hid⟩ := h.primitive name hname
    exact ⟨id, entryAt?_append.2 (.inl hid)⟩

/-! ### Declarations -/

theorem findIdx?_isObjectNamed {name : String} {id : TypeId}
    (h : t.entries.findIdx? (Entry.isObjectNamed name) = some id) :
    ∃ d, t.entryAt? id = some (.object d) ∧ d.name = name := by
  obtain ⟨hlt, hp, -⟩ := List.findIdx?_eq_some_iff_getElem.1 h
  cases he : t.entries[id] with
  | object d =>
    rw [he] at hp
    exact ⟨d, by rw [entryAt?, List.getElem?_eq_getElem hlt, he], by simpa [Entry.isObjectNamed] using hp⟩
  | _ => rw [he] at hp; simp [Entry.isObjectNamed] at hp

theorem not_isObjectNamed {name : String}
    (h : t.entries.findIdx? (Entry.isObjectNamed name) = none) {id : TypeId} {d : TypeDeclaration}
    (hid : t.entryAt? id = some (.object d)) : d.name ≠ name := by
  have := List.findIdx?_eq_none_iff.1 h _ (List.mem_of_getElem? hid)
  simpa [Entry.isObjectNamed] using this

/-- What an extended entry says about its type. -/
theorem entryAt?_modify {id j : TypeId} {d d₀ : TypeDeclaration} (hid : t.entryAt? id = some (.object d₀))
    {e : Entry} : ({ t with entries := t.entries.modify id (Entry.extend d) } : TypeTable).entryAt? j =
      some e ↔ (j ≠ id ∧ t.entryAt? j = some e) ∨
        (j = id ∧ e = .object { d₀ with
          bases := d₀.bases ++ d.bases, properties := d₀.properties ++ d.properties }) := by
  by_cases hj : j = id
  · subst hj
    rw [entryAt?] at hid
    simp [entryAt?, hid, Entry.extend, eq_comm]
  · simp [entryAt?, hj, Ne.symm hj]

theorem isUnion_modify {id : TypeId} {d d₀ : TypeDeclaration} (hid : t.entryAt? id = some (.object d₀))
    (j : TypeId) : ({ t with entries := t.entries.modify id (Entry.extend d) } : TypeTable).isUnion j =
      t.isUnion j := by
  by_cases hj : j = id
  · subst hj
    rw [isUnion, isUnion, (entryAt?_modify hid).2 (.inr ⟨rfl, rfl⟩), hid]
  · exact isUnion_congr (by simp [entryAt?, Ne.symm hj])

theorem isIntersection_modify {id : TypeId} {d d₀ : TypeDeclaration}
    (hid : t.entryAt? id = some (.object d₀)) (j : TypeId) :
    ({ t with entries := t.entries.modify id (Entry.extend d) } : TypeTable).isIntersection j =
      t.isIntersection j := by
  by_cases hj : j = id
  · subst hj
    rw [isIntersection, isIntersection, (entryAt?_modify hid).2 (.inr ⟨rfl, rfl⟩), hid]
  · exact isIntersection_congr (by simp [entryAt?, Ne.symm hj])

/-- A class or an interface may be extended. -/
theorem WellFormed.extend (h : t.WellFormed) {id : TypeId} {d₀ : TypeDeclaration}
    (hid : t.entryAt? id = some (.object d₀)) (d : TypeDeclaration) :
    ({ t with entries := t.entries.modify id (Entry.extend d) } : TypeTable).WellFormed := by
  -- the entry that changes stays a class or an interface of the same name
  have key := fun j e => entryAt?_modify (d := d) hid (j := j) (e := e)
  refine ⟨fun hj m hm => ?_, fun hj => ?_, fun hi hj => ?_, fun hi hj hn => ?_, fun name hname => ?_⟩
  · rcases (key _ _).1 hj with ⟨-, hj⟩ | ⟨-, rfl⟩
    · exact h.parts_lt hj m hm
    · cases hm
  · rcases (key _ _).1 hj with ⟨-, hj⟩ | ⟨-, rfl⟩
    · exact (h.flat hj).congr (fun m _ => isUnion_modify hid m) fun m _ => isIntersection_modify hid m
    · trivial
  · rcases (key _ _).1 hi with ⟨hne, hi⟩ | ⟨hi, he⟩ <;>
      rcases (key _ _).1 hj with ⟨hne', hj⟩ | ⟨hj, he'⟩
    · exact h.entry_inj hi hj
    · subst he'
      exact absurd (h.object_inj hi hid rfl) hne
    · subst he
      exact absurd (h.object_inj hj hid rfl) hne'
    · exact hi.trans hj.symm
  · rcases (key _ _).1 hi with ⟨hne, hi⟩ | ⟨hi, he⟩ <;>
      rcases (key _ _).1 hj with ⟨hne', hj⟩ | ⟨hj, he'⟩
    · exact h.object_inj hi hj hn
    · cases he'
      exact absurd (h.object_inj hi hid hn) hne
    · cases he
      exact absurd (h.object_inj hj hid hn.symm) hne'
    · exact hi.trans hj.symm
  · obtain ⟨j, hj⟩ := h.primitive name hname
    refine ⟨j, (key j _).2 (.inl ⟨?_, hj⟩)⟩
    rintro rfl
    rw [hid] at hj
    cases hj

/-- A type of the table with a declaration was there before, unless it is the one that is declared. -/
theorem entryAt?_declare {d : TypeDeclaration} {id : TypeId} {e : Entry}
    (h : (t.declare d).2.entryAt? id = some e) :
    t.entryAt? id = some e ∨ ∃ d', e = .object d' ∧ d'.name = d.name := by
  cases hfind : t.entries.findIdx? (Entry.isObjectNamed d.name) with
  | none =>
    rw [TypeTable.declare, hfind] at h
    rcases entryAt?_append.1 h with h | ⟨-, rfl⟩
    · exact .inl h
    · exact .inr ⟨d, rfl, rfl⟩
  | some j =>
    obtain ⟨d₀, hj, hd₀⟩ := findIdx?_isObjectNamed hfind
    rw [TypeTable.declare, hfind] at h
    rcases (entryAt?_modify hj).1 h with ⟨-, h⟩ | ⟨-, rfl⟩
    · exact .inl h
    · exact .inr ⟨_, rfl, hd₀⟩

/-- A declaration keeps the invariant. -/
theorem WellFormed.declare (h : t.WellFormed) (d : TypeDeclaration) : (t.declare d).2.WellFormed := by
  rw [TypeTable.declare]
  cases hfind : t.entries.findIdx? (Entry.isObjectNamed d.name) with
  | none =>
    refine h.append (by simp [Entry.parts]) trivial (fun id hid => ?_) fun d' hd' id d'' hid => ?_
    · exact not_isObjectNamed hfind hid rfl
    · cases hd'
      exact not_isObjectNamed hfind hid
  | some id =>
    obtain ⟨d₀, hid, -⟩ := findIdx?_isObjectNamed hfind
    exact h.extend hid d

/-- A call binding keeps the invariant. -/
theorem WellFormed.bind (h : t.WellFormed) (b : CallBinding) : (t.bind b).WellFormed := by
  rw [TypeTable.bind]
  cases b.key? with
  | none => exact h
  | some key => exact ⟨h.parts_lt, h.flat, h.entry_inj, h.object_inj, h.primitive⟩

end DateFields.TypeTable
