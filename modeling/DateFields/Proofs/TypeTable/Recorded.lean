import DateFields.Proofs.TypeTable.Indexed

/-!
# What the indices hold

Every table that operations lead to keeps an invariant: its types are made from earlier ones, its
unions and intersections are flat, and its indices hold just what stands in it.

* `Indexed.Sound`: the invariant;
* `Indexed.Represents.sound`: indices that find what a search finds have it;
* `Indexed.Represents.text?_eq`: the spelling of a type is found without going round in circles;
* `extended`, `entries_ofOperations_append`: entries are only appended, and an entry changes only
  when a class or an interface is declared again;
* `Indexed.sound_ofOperations`: all of this after any operations.
-/

namespace DateFields.TypeTable

variable {t : TypeTable} {p : Entry → Bool} {e : Entry} {id : TypeId} {name : String}

/-! ### Unique entries -/

/-- A search for what stands at one place at most finds that place. -/
theorem findIdx?_eq_some_iff_of_unique (hunique : ∀ i j a b, t.entryAt? i = some a →
    t.entryAt? j = some b → p a = true → p b = true → i = j) :
    t.entries.findIdx? p = some id ↔ ∃ e, t.entryAt? id = some e ∧ p e = true := by
  have hsound : ∀ {j}, t.entries.findIdx? p = some j → ∃ e, t.entryAt? j = some e ∧ p e = true := by
    intro j hfind
    obtain ⟨hlt, hp, -⟩ := List.findIdx?_eq_some_iff_getElem.1 hfind
    exact ⟨_, List.getElem?_eq_getElem hlt, hp⟩
  refine ⟨hsound, ?_⟩
  rintro ⟨e, he, hp⟩
  cases hfind : t.entries.findIdx? p with
  | none =>
    have hno := List.findIdx?_eq_none_iff.1 hfind e (List.mem_of_getElem? he)
    rw [hp] at hno
    cases hno
  | some j =>
    obtain ⟨e', he', hp'⟩ := hsound hfind
    rw [hunique j id e' e he' he hp' hp]

theorem WellFormed.findIdx?_beq_iff (ht : t.WellFormed) :
    t.entries.findIdx? (· == e) = some id ↔ t.entryAt? id = some e := by
  rw [findIdx?_eq_some_iff_of_unique]
  · simp
  · intro i j a b hi hj ha hb
    rw [eq_of_beq ha] at hi
    rw [eq_of_beq hb] at hj
    exact ht.entry_inj hi hj

theorem Entry.isObjectNamed_iff :
    e.isObjectNamed name = true ↔ ∃ d, e = .object d ∧ d.name = name := by
  cases e <;> simp [Entry.isObjectNamed]

theorem Entry.isPrimitiveNamed_iff : e.isPrimitiveNamed name = true ↔ e = .primitive name := by
  cases e <;> simp [Entry.isPrimitiveNamed]

theorem WellFormed.findIdx?_isObjectNamed_iff (ht : t.WellFormed) :
    t.entries.findIdx? (Entry.isObjectNamed name) = some id ↔
      ∃ d, t.entryAt? id = some (.object d) ∧ d.name = name := by
  rw [findIdx?_eq_some_iff_of_unique]
  · simp only [Entry.isObjectNamed_iff]
    exact ⟨fun ⟨e, he, d, hd, hname⟩ => ⟨d, hd ▸ he, hname⟩,
      fun ⟨d, hd, hname⟩ => ⟨_, hd, d, rfl, hname⟩⟩
  · intro i j a b hi hj ha hb
    obtain ⟨d, rfl, hd⟩ := Entry.isObjectNamed_iff.1 ha
    obtain ⟨d', rfl, hd'⟩ := Entry.isObjectNamed_iff.1 hb
    exact ht.object_inj hi hj (hd.trans hd'.symm)

theorem WellFormed.findIdx?_isPrimitiveNamed_iff (ht : t.WellFormed) :
    t.entries.findIdx? (Entry.isPrimitiveNamed name) = some id ↔
      t.entryAt? id = some (.primitive name) := by
  rw [findIdx?_eq_some_iff_of_unique]
  · simp [Entry.isPrimitiveNamed_iff]
  · intro i j a b hi hj ha hb
    rw [Entry.isPrimitiveNamed_iff.1 ha] at hi
    rw [Entry.isPrimitiveNamed_iff.1 hb] at hj
    exact ht.entry_inj hi hj

/-- A name leads to the class or the interface of that name, and else to the primitive type. -/
theorem WellFormed.lookup?_eq_some_iff (ht : t.WellFormed) : t.lookup? name = some id ↔
    (∃ d, t.entryAt? id = some (.object d) ∧ d.name = name) ∨
      (t.entryAt? id = some (.primitive name) ∧
        ∀ j d, t.entryAt? j = some (.object d) → d.name ≠ name) := by
  rw [lookup?, Option.orElse_eq_orElse, Option.orElse_eq_or, Option.or_eq_some_iff,
    ht.findIdx?_isObjectNamed_iff, ht.findIdx?_isPrimitiveNamed_iff,
    Option.eq_none_iff_forall_ne_some, and_comm]
  refine or_congr_right (and_congr_right fun _ => forall_congr' fun j => ?_)
  rw [Ne, ht.findIdx?_isObjectNamed_iff]
  simp only [not_exists, not_and]

namespace Indexed

variable {s : Indexed}

/-! ### The invariant -/

/-- The invariant of a table with indices. -/
structure Sound (s : Indexed) : Prop where
  /-- A type is made from earlier types. -/
  parts_lt : ∀ {id : TypeId} {e : Entry}, s.types[id]? = some e → ∀ m ∈ e.parts, m < id
  /-- The members of a union are different types and no unions, and there is never only one. -/
  union_flat : ∀ {id : TypeId} {members : List TypeId}, s.types[id]? = some (.union members) →
    members.Nodup ∧ members.length ≠ 1 ∧ ∀ m ∈ members, ∀ inner, s.types[m]? ≠ some (.union inner)
  /-- The members of an intersection are different types and no intersections, and there is never
  only one. -/
  intersection_flat : ∀ {id : TypeId} {members : List TypeId},
    s.types[id]? = some (.intersection members) → members.Nodup ∧ members.length ≠ 1 ∧
      ∀ m ∈ members, ∀ inner, s.types[m]? ≠ some (.intersection inner)
  /-- Inline object types are recorded where they stand. -/
  literals : ∀ {members : List Property} {id : TypeId},
    s.literals members = some id ↔ s.types[id]? = some (.literal members)
  /-- Array types are recorded where they stand. -/
  arrays : ∀ {element id : TypeId}, s.arrays element = some id ↔ s.types[id]? = some (.array element)
  /-- Unions are recorded where they stand. -/
  unions : ∀ {members : List TypeId} {id : TypeId},
    s.unions members = some id ↔ s.types[id]? = some (.union members)
  /-- Intersections are recorded where they stand. -/
  intersections : ∀ {members : List TypeId} {id : TypeId},
    s.intersections members = some id ↔ s.types[id]? = some (.intersection members)
  /-- A name leads to the class or the interface so called, and else to the primitive type. -/
  named : ∀ {name : String} {id : TypeId}, s.named name = some id ↔
    (∃ d : TypeDeclaration, s.types[id]? = some (.object d) ∧ d.name = name) ∨
      (s.types[id]? = some (.primitive name) ∧
        ∀ (j : TypeId) (d : TypeDeclaration), s.types[j]? = some (.object d) → d.name ≠ name)
  /-- The names of the primitive types always lead to a type. -/
  primitive : ∀ {name : String}, name ∈ primitiveNames → ∃ id, s.named name = some id

theorem Represents.recorded?_iff (h : s.Represents t) (ht : t.WellFormed) (he : e.isNamed = false) :
    s.recorded? e = some id ↔ s.types[id]? = some e := by
  rw [h.recorded e he, ht.findIdx?_beq_iff, h.types, entryAt?]

/-- Indices that find what a search of a well-formed table finds are sound. -/
theorem Represents.sound (h : s.Represents t) (ht : t.WellFormed) : s.Sound where
  parts_lt {id e} hid := by
    rw [h.types] at hid
    exact ht.parts_lt hid
  union_flat {id members} hid := by
    rw [h.types] at hid ⊢
    obtain ⟨hnodup, hlength, hflat⟩ := ht.flat hid
    refine ⟨hnodup, hlength, fun m hm inner hinner => ?_⟩
    have hno := hflat m hm
    rw [isUnion_iff.2 ⟨inner, hinner⟩] at hno
    cases hno
  intersection_flat {id members} hid := by
    rw [h.types] at hid ⊢
    obtain ⟨hnodup, hlength, hflat⟩ := ht.flat hid
    refine ⟨hnodup, hlength, fun m hm inner hinner => ?_⟩
    have hno := hflat m hm
    rw [isIntersection_iff.2 ⟨inner, hinner⟩] at hno
    cases hno
  literals {members _} := h.recorded?_iff (e := .literal members) ht rfl
  arrays {element _} := h.recorded?_iff (e := .array element) ht rfl
  unions {members _} := h.recorded?_iff (e := .union members) ht rfl
  intersections {members _} := h.recorded?_iff (e := .intersection members) ht rfl
  named := by
    intro name id
    rw [h.named, h.types]
    exact ht.lookup?_eq_some_iff
  primitive {name} hname := by
    rw [h.named]
    exact ht.exists_lookup? hname

/-! ### Spelling -/

theorem mapM_eq_some {α β : Type} {f : α → Option β} {g : α → β} {as : List α}
    (h : ∀ a ∈ as, f a = some (g a)) : as.mapM f = some (as.map g) := by
  induction as with
  | nil => rfl
  | cons a as ih =>
    obtain ⟨ha, has⟩ := List.forall_mem_cons.1 h
    rw [List.mapM_cons, ha, ih has]
    rfl

/-- A type is spelled by going through as many levels as it has types before it, at most. -/
theorem Represents.text?_eq (h : s.Represents t) (ht : t.WellFormed) {levels : Nat}
    (hid : id < levels) : s.text? levels id = some (t.typeText id) := by
  induction id using Nat.strongRecOn generalizing levels with
  | _ id ih =>
    obtain ⟨levels, rfl⟩ : ∃ n, levels = n + 1 :=
      Nat.exists_eq_add_one.2 (Nat.lt_of_le_of_lt (Nat.zero_le _) hid)
    rw [text?, h.types, h.table, typeText, textWithin, entryAt?]
    cases he : t.entries[id]? with
    | none => rfl
    | some e =>
      -- the spelling of a part does not depend on the levels that are left
      have hpart : ∀ m ∈ e.parts, s.text? levels m = some (t.textWithin id m) := fun m hm => by
        have hlt := ht.parts_lt he m hm
        rw [ih m hlt (Nat.lt_of_lt_of_le hlt (Nat.le_of_lt_succ hid)), ht.textWithin_eq hlt,
          ht.typeText_eq]
      cases e with
      | primitive | object | literal => rfl
      | array a =>
        dsimp only
        rw [hpart a (by simp [Entry.parts])]
        rfl
      | union members =>
        dsimp only
        have hmembers : members.mapM (s.text? levels) = some (members.map (t.textWithin id)) :=
          mapM_eq_some hpart
        rw [hmembers]
        rfl
      | intersection members =>
        dsimp only
        rw [mapM_eq_some (g := fun m => grouped (t.isUnion m) (t.textWithin id m))
          fun m hm => by rw [hpart m hm]; rfl]
        rfl

end Indexed

/-! ### Changes -/

/-- What becomes of an entry of the table: a declaration extends the class or the interface of its
name. -/
def Operation.extend : Operation → Entry → Entry
  | .declare d, e => if e.isObjectNamed d.name then e.extend d else e
  | _, e => e

/-- What becomes of an entry by several operations. -/
def extended (ops : List Operation) (e : Entry) : Entry := ops.foldl (fun e op => op.extend e) e

/-- An operation appends entries to the extended ones. -/
theorem WellFormed.entries_apply (ht : t.WellFormed) (op : Operation) :
    t.entries.map op.extend <+: (op.apply t).entries := by
  have hgrown : ∀ {u : TypeTable}, t.Extends u → t.entries <+: u.entries := by
    intro u h
    obtain ⟨new, hnew, -⟩ := h.entries
    exact ⟨new, hnew.symm⟩
  cases op with
  | declare d =>
    cases hfind : t.entries.findIdx? (Entry.isObjectNamed d.name) with
    | some j =>
      obtain ⟨d₀, hj, hd₀⟩ := findIdx?_isObjectNamed hfind
      have hmodify : t.entries.map (Operation.declare d).extend =
          t.entries.modify j (Entry.extend d) := by
        refine List.ext_getElem? fun i => ?_
        rw [List.getElem?_map, List.getElem?_modify]
        cases hi : t.entries[i]? with
        | none => simp
        | some e =>
          by_cases hij : j = i
          · subst hij
            cases hj.symm.trans hi
            simp [Operation.extend, Entry.isObjectNamed, hd₀]
          · have hother : e.isObjectNamed d.name = false := Bool.eq_false_iff.2 fun he => by
              obtain ⟨d', rfl, hd'⟩ := Entry.isObjectNamed_iff.1 he
              exact hij (ht.object_inj hj hi (hd₀.trans hd'.symm))
            simp [Operation.extend, hother, hij]
      have hentries : (Operation.apply t (.declare d)).entries =
          t.entries.map (Operation.declare d).extend := by
        rw [Operation.apply, TypeTable.declare, hfind, hmodify]
      exact hentries ▸ List.prefix_rfl
    | none =>
      have hsame : t.entries.map (Operation.declare d).extend = t.entries := by
        refine (List.map_congr_left fun e he => ?_).trans (List.map_id _)
        have hother := List.findIdx?_eq_none_iff.1 hfind e he
        rw [Operation.extend, hother, if_neg Bool.false_ne_true, id]
      rw [Operation.apply, TypeTable.declare, hfind, hsame]
      exact List.prefix_append _ _
  | bind b =>
    rw [Operation.apply, entries_bind]
    exact (List.map_id _).symm ▸ List.prefix_rfl
  | resolve e => exact (List.map_id _).symm ▸ hgrown (grows_resolve e t)
  | nonNullable id => exact (List.map_id _).symm ▸ hgrown (grows_nonNullable id t)

/-- Entries are only appended, and extended by declarations of their names. -/
theorem entries_ofOperations_append (ops more : List Operation) :
    (ofOperations ops).entries.map (extended more) <+: (ofOperations (ops ++ more)).entries := by
  induction more using List.reverseRecOn with
  | nil =>
    rw [List.append_nil]
    exact (List.map_id _).symm ▸ List.prefix_rfl
  | append_singleton more op ih =>
    have hstep : ofOperations (ops ++ (more ++ [op])) = op.apply (ofOperations (ops ++ more)) := by
      rw [← List.append_assoc]
      exact ofOperations_append (ops ++ more) [op]
    have hextended : extended (more ++ [op]) = op.extend ∘ extended more := by
      funext e
      rw [extended, List.foldl_append]
      rfl
    rw [hstep, hextended, ← List.map_map]
    exact (ih.map op.extend).trans ((wellFormed_ofOperations _).entries_apply op)

/-- **The indices hold what stands in the table, after any operations.** Types are made from earlier
types, so spelling one comes to an end; unions and intersections are flat and never of one member;
what is recorded under a member list, an element type or a name is where that entry stands.  Entries
are only appended, and an old one changes only by declarations of its name, which extend its bases
and properties.  The table without indices has the same types and gives the same answers. -/
theorem Indexed.sound_ofOperations (ops : List Operation) :
    let s := Indexed.ofOperations ops
    let t := TypeTable.ofOperations ops
    s.Sound ∧
    (∀ id more, s.text? (id + 1 + more) id = some (t.typeText id)) ∧
    (∀ more, s.types.map (extended more) <+: (Indexed.ofOperations (ops ++ more)).types) ∧
    s.types = t.entries ∧
    (∀ name, s.named name = t.lookup? name) ∧
    (∀ e, ((Indexed.resolve e).run.run s).1 = ((TypeTable.resolve e).run.run t).1) ∧
    (∀ id, ((Indexed.nonNullable id).run s).1 = ((TypeTable.nonNullable id).run t).1) ∧
    (∀ d, (s.declare d).1 = (t.declare d).1) ∧
    ∀ file id callee, s.declarationOf? file id callee = t.declarationOf? file id callee := by
  intro s t
  have hrep : s.Represents t := Indexed.represents_ofOperations ops
  have ht : t.WellFormed := wellFormed_ofOperations ops
  refine ⟨hrep.sound ht, fun id more => ?_, fun more => ?_, hrep.types, hrep.named,
    fun e => (Indexed.simulates_resolve e hrep).1,
    fun id => (Indexed.simulates_nonNullable id hrep).1, fun d => (hrep.declare d).1,
    hrep.declarationOf?_eq⟩
  · exact hrep.text?_eq ht (Nat.lt_add_right more (Nat.lt_succ_self id))
  · rw [hrep.types, (Indexed.represents_ofOperations (ops ++ more)).types]
    exact entries_ofOperations_append ops more

/-- A class takes over the name of a primitive type; the types made from that stay. -/
example : let s := Indexed.ofOperations [.resolve (.array (.keyword "string")),
      .declare ⟨"string", .ofClass, [], []⟩, .resolve (.array (.keyword "string"))]
    s.named "string" = some 14 ∧ s.arrays 0 = some 13 ∧ s.arrays 14 = some 15 := by
  decide +kernel

end DateFields.TypeTable
