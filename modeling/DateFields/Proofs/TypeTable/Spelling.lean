import DateFields.Proofs.TypeExpr.Spelling
import DateFields.Proofs.TypeTable.Declarations

/-!
# Types told by their spelling

As long as every class and every interface has an identifier of its own for a name, two types of a
table are never spelled alike, inline object types and empty unions and intersections aside.

* `Legible` — no such type is the type or part of it;
* `ProperNames` — the names of classes and interfaces are identifiers, and no primitive types;
* `WellFormed.readable_form` — what a legible type stands for is readable;
* `WellFormed.not_isIdentifier_typeText` — only the spelling of a named type is an identifier;
* `typeText_identifies` — what the spelling of a type tells.
-/

namespace DateFields.TypeTable

variable {t : TypeTable} {id : TypeId} {e : Entry} {d : TypeDeclaration}

/-! ### Parts -/

/-- The one type is part of the other, or it is the type itself. -/
inductive Contains (t : TypeTable) : TypeId → TypeId → Prop
  /-- The type itself. -/
  | refl (id : TypeId) : Contains t id id
  /-- Part of a part. -/
  | part {id m j : TypeId} {e : Entry} (he : t.entryAt? id = some e) (hm : m ∈ e.parts)
    (h : Contains t m j) : Contains t id j

/-- An inline object type, or a combination of nothing. -/
def Entry.isVague : Entry → Bool
  | .literal _ => true
  | .union [] => true
  | .intersection [] => true
  | _ => false

/-- The type is no inline object type, no empty union and no empty intersection, and it contains
none. -/
def Legible (t : TypeTable) (id : TypeId) : Prop :=
  ∀ j e, t.Contains id j → t.entryAt? j = some e → e.isVague = false

/-- A type is legible when its entry and its parts are. -/
theorem legible_of_parts (he : t.entryAt? id = some e) (hvague : e.isVague = false)
    (hparts : ∀ m ∈ e.parts, t.Legible m) : t.Legible id := by
  intro j e' hcontains hj
  cases hcontains with
  | refl =>
    obtain rfl := Option.some.inj (he.symm.trans hj)
    exact hvague
  | part he' hm h =>
    obtain rfl := Option.some.inj (he.symm.trans he')
    exact hparts _ hm j e' h hj

theorem Legible.part (h : t.Legible id) (he : t.entryAt? id = some e) {m : TypeId}
    (hm : m ∈ e.parts) : t.Legible m :=
  fun j e' hcontains => h j e' (.part he hm hcontains)

/-! ### Names -/

/-- The names of classes and interfaces are identifiers, and no names of primitive types. -/
def ProperNames (t : TypeTable) : Prop :=
  ∀ id d, t.entryAt? id = some (.object d) →
    Text.isIdentifier d.name = true ∧ d.name ∉ primitiveNames

theorem properNames_new : new.ProperNames := by
  intro id d h
  rcases entryAt?_new h with ⟨name, -, he⟩ | he
  · cases he
  · cases he
    decide

theorem ProperNames.extends {u : TypeTable} (ht : t.ProperNames) (h : t.Extends u) : u.ProperNames :=
  fun id d hid => ht id d (h.entryAt?_of_named hid rfl)

/-- Every operation keeps the names proper, as long as it declares no other. -/
theorem ProperNames.apply (ht : t.ProperNames) {op : Operation}
    (hop : ∀ d, op = .declare d → Text.isIdentifier d.name = true ∧ d.name ∉ primitiveNames) :
    (op.apply t).ProperNames := by
  cases op with
  | declare d' =>
    intro id d hid
    rcases entryAt?_declare hid with hid | ⟨d₀, hd, hname⟩
    · exact ht id d hid
    · cases hd
      exact hname ▸ hop d' rfl
  | bind b =>
    intro id d hid
    rw [entryAt?, Operation.apply, entries_bind] at hid
    exact ht id d hid
  | resolve e => exact ht.extends (grows_resolve e t)
  | nonNullable id => exact ht.extends (grows_nonNullable id t)

theorem properNames_ofOperations {ops : List Operation} (h : ∀ d, Operation.declare d ∈ ops →
    Text.isIdentifier d.name = true ∧ d.name ∉ primitiveNames) : (ofOperations ops).ProperNames :=
  List.foldlRecOn ops Operation.apply properNames_new fun _ ht _ hop =>
    ht.apply fun d hd => h d (hd ▸ hop)

/-! ### Readable types -/

theorem WellFormed.shape_form_union (ht : t.WellFormed) (h : t.isUnion id = false) :
    (t.form id).shape ≠ .union := by
  cases he : t.entryAt? id with
  | none =>
    rw [form, formWithin, he]
    simp [TypeExpr.shape]
  | some e =>
    rw [isUnion, he] at h
    rw [ht.form_of_entry he]
    cases e with
    | union => cases h
    | _ => simp [Entry.expr, TypeExpr.shape]

theorem WellFormed.shape_form_intersection (ht : t.WellFormed) (h : t.isIntersection id = false) :
    (t.form id).shape ≠ .intersection := by
  cases he : t.entryAt? id with
  | none =>
    rw [form, formWithin, he]
    simp [TypeExpr.shape]
  | some e =>
    rw [isIntersection, he] at h
    rw [ht.form_of_entry he]
    cases e with
    | intersection => cases h
    | _ => simp [Entry.expr, TypeExpr.shape]

theorem two_le_length {members : List TypeId} (hne : members ≠ []) (hlength : members.length ≠ 1) :
    2 ≤ members.length := by
  have hpos := List.length_pos_of_ne_nil hne
  omega

/-- What a legible type stands for is readable. -/
theorem WellFormed.readable_form (ht : t.WellFormed) (hk : t.KnownPrimitives) (hn : t.ProperNames)
    (hid : id < t.entries.length) (h : t.Legible id) : (t.form id).Readable := by
  induction id using Nat.strongRecOn with
  | _ id ih =>
    obtain ⟨e, he⟩ := exists_entryAt? hid
    have hvague := h id e (.refl id) he
    have hflat := ht.flat he
    have hparts : ∀ m ∈ e.parts, (t.form m).Readable := fun m hm =>
      ih m (ht.parts_lt he m hm) (Nat.lt_trans (ht.parts_lt he m hm) hid) (h.part he hm)
    rw [ht.form_of_entry he]
    cases e with
    | primitive name => exact .keyword (hk id name he)
    | object d => exact .reference (hn id d he).1 (hn id d he).2
    | literal members => cases hvague
    | array element => exact .array (hparts element (List.mem_singleton_self element))
    | union members =>
      obtain ⟨-, hlength, hmembers⟩ := hflat
      have hne : members ≠ [] := by
        rintro rfl
        cases hvague
      exact .union (List.forall_mem_map.2 hparts) (by simpa using two_le_length hne hlength)
        (List.forall_mem_map.2 fun m hm => ht.shape_form_union (hmembers m hm))
    | intersection members =>
      obtain ⟨-, hlength, hmembers⟩ := hflat
      have hne : members ≠ [] := by
        rintro rfl
        cases hvague
      exact .intersection (List.forall_mem_map.2 hparts) (by simpa using two_le_length hne hlength)
        (List.forall_mem_map.2 fun m hm => ht.shape_form_intersection (hmembers m hm))

/-! ### Spellings that are names -/

theorem WellFormed.typeText_object (ht : t.WellFormed) (he : t.entryAt? id = some (.object d)) :
    t.typeText id = d.name := by
  rw [ht.typeText_eq, ht.form_of_entry he]
  rfl

theorem WellFormed.typeText_primitive (ht : t.WellFormed) {name : String}
    (he : t.entryAt? id = some (.primitive name)) : t.typeText id = name := by
  rw [ht.typeText_eq, ht.form_of_entry he]
  rfl

/-- Only the spelling of a primitive type, a class or an interface is an identifier. -/
theorem WellFormed.not_isIdentifier_typeText (ht : t.WellFormed) (he : t.entryAt? id = some e)
    (hnamed : e.isNamed = false) : Text.isIdentifier (t.typeText id) = false := by
  have hflat := ht.flat he
  rw [ht.typeText_eq, ht.form_of_entry he]
  cases e with
  | primitive | object => cases hnamed
  | literal members => exact TypeExpr.not_isIdentifier_literal members
  | array element => exact TypeExpr.not_isIdentifier_array _
  | union members => exact TypeExpr.not_isIdentifier_union (by simpa using hflat.2.1)
  | intersection members => exact TypeExpr.not_isIdentifier_intersection (by simpa using hflat.2.1)

/-- A primitive type is found by its name, as long as nothing else has it. -/
theorem WellFormed.lookup?_primitive (ht : t.WellFormed) (hn : t.ProperNames) {name : String}
    (hname : name ∈ primitiveNames) (he : t.entryAt? id = some (.primitive name)) :
    t.lookup? name = some id := by
  obtain ⟨found, hfound⟩ := ht.exists_lookup? hname
  rcases lookup?_some hfound with ⟨d, hd, rfl⟩ | hprimitive
  · exact absurd hname (hn found d hd).2
  · rw [hfound, ht.entry_inj hprimitive he]

/-- A type is spelled like an identifier just when it is found by this name. -/
theorem WellFormed.typeText_eq_iff_lookup? (ht : t.WellFormed) (hk : t.KnownPrimitives)
    (hn : t.ProperNames) {name : String} (hname : Text.isIdentifier name = true)
    (hid : id < t.entries.length) : t.typeText id = name ↔ t.lookup? name = some id := by
  constructor
  · rintro rfl
    obtain ⟨e, he⟩ := exists_entryAt? hid
    cases e with
    | primitive name =>
      rw [ht.typeText_primitive he]
      exact ht.lookup?_primitive hn (hk id name he) he
    | object d =>
      rw [ht.typeText_object he]
      exact ht.lookup?_object he
    | literal | array | union | intersection =>
      rw [ht.not_isIdentifier_typeText he rfl] at hname
      cases hname
  · intro hfound
    rcases lookup?_some hfound with ⟨d, hd, rfl⟩ | hprimitive
    · exact ht.typeText_object hd
    · exact ht.typeText_primitive hprimitive

/-- With identifiers for names that are no primitive types, legible types that are spelled alike are
the same; only named types are spelled like an identifier; and a type is spelled like a given
identifier just when it is the one of this name. -/
theorem typeText_identifies (ops : List Operation) (hnames : ∀ d, Operation.declare d ∈ ops →
    Text.isIdentifier d.name = true ∧ d.name ∉ primitiveNames) :
    let t := ofOperations ops
    (∀ i j, i < t.entries.length → j < t.entries.length → t.Legible i → t.Legible j →
      t.typeText i = t.typeText j → i = j) ∧
    (∀ i e, t.entryAt? i = some e → e.isNamed = false → Text.isIdentifier (t.typeText i) = false) ∧
    ∀ timestamp i, Text.isIdentifier timestamp = true → i < t.entries.length →
      (t.typeText i = timestamp ↔ t.lookup? timestamp = some i) := by
  intro t
  have ht : t.WellFormed := wellFormed_ofOperations ops
  have hk : t.KnownPrimitives := knownPrimitives_ofOperations ops
  have hn : t.ProperNames := properNames_ofOperations hnames
  refine ⟨fun i j hi hj hlegible hlegible' htext => ?_,
    fun i e he hnamed => ht.not_isIdentifier_typeText he hnamed,
    fun timestamp i htimestamp hi => ht.typeText_eq_iff_lookup? hk hn htimestamp hi⟩
  rw [ht.typeText_eq, ht.typeText_eq] at htext
  have hform := (ht.readable_form hk hn hi hlegible).eq_of_spelling_eq
    (ht.readable_form hk hn hj hlegible') (congrArg String.toList htext)
  exact ht.form_inj hi hj hform

/-- `(Event | null)[]` and `Event[] | null` are spelled like no other type. -/
theorem typeText_identifies_event :
    let event : TypeExpr := .reference "Event" []
    let ops : List Operation := [.declare ⟨"Event", .ofInterface, [], []⟩,
      .resolve (.array (.union [event, .keyword "null"])),
      .resolve (.union [.array event, .keyword "null"])]
    let t := ofOperations ops
    (∀ d, Operation.declare d ∈ ops → Text.isIdentifier d.name = true ∧ d.name ∉ primitiveNames) ∧
    (∀ j, j < t.entries.length → t.Legible j → t.typeText j = "(Event | null)[]" → j = 15) ∧
    (∀ j, j < t.entries.length → t.Legible j → t.typeText j = "Event[] | null" → j = 17) ∧
    Text.isIdentifier (t.typeText 15) = false ∧
    ∀ j, j < t.entries.length → (t.typeText j = "Event" ↔ j = 13) := by
  intro event ops t
  have hnames : ∀ d, Operation.declare d ∈ ops →
      Text.isIdentifier d.name = true ∧ d.name ∉ primitiveNames := by
    intro d hd
    obtain rfl : d = ⟨"Event", .ofInterface, [], []⟩ := by simpa [ops] using hd
    decide
  obtain ⟨hsame, hcombined, hnamed⟩ := typeText_identifies ops hnames
  have hentries : t.entries.drop 13 = [.object ⟨"Event", .ofInterface, [], []⟩, .union [13, 6],
      .array 14, .array 13, .union [16, 6]] := by decide +kernel
  have hat : ∀ n e, (t.entries.drop 13)[n]? = some e → t.entryAt? (13 + n) = some e := by
    intro n e h
    rwa [List.getElem?_drop] at h
  rw [hentries] at hat
  have hnull : t.entryAt? 6 = some (.primitive "null") := by decide +kernel
  have hlegible6 : t.Legible 6 := legible_of_parts hnull rfl (by simp [Entry.parts])
  have hlegible13 : t.Legible 13 := legible_of_parts (hat 0 _ rfl) rfl (by simp [Entry.parts])
  have hlegible14 : t.Legible 14 :=
    legible_of_parts (hat 1 _ rfl) rfl (by simp [Entry.parts, hlegible6, hlegible13])
  have hlegible15 : t.Legible 15 :=
    legible_of_parts (hat 2 _ rfl) rfl (by simp [Entry.parts, hlegible14])
  have hlegible16 : t.Legible 16 :=
    legible_of_parts (hat 3 _ rfl) rfl (by simp [Entry.parts, hlegible13])
  have hlegible17 : t.Legible 17 :=
    legible_of_parts (hat 4 _ rfl) rfl (by simp [Entry.parts, hlegible6, hlegible16])
  have htext15 : t.typeText 15 = "(Event | null)[]" := by decide +kernel
  have htext17 : t.typeText 17 = "Event[] | null" := by decide +kernel
  have hlookup : t.lookup? "Event" = some 13 := by decide +kernel
  refine ⟨hnames, fun j hj hlegible htext => ?_, fun j hj hlegible htext => ?_,
    hcombined 15 _ (hat 2 _ rfl) rfl, fun j hj => ?_⟩
  · exact hsame j 15 hj (lt_of_entryAt? (hat 2 _ rfl)) hlegible hlegible15 (htext.trans htext15.symm)
  · exact hsame j 17 hj (lt_of_entryAt? (hat 4 _ rfl)) hlegible hlegible17 (htext.trans htext17.symm)
  · have hident : Text.isIdentifier "Event" = true := by decide
    rw [hnamed "Event" j hident hj, hlookup, Option.some.injEq, eq_comm]

end DateFields.TypeTable
