import DateFields.Proofs.TypeTable.History

/-!
# What a table declares

A name stands for the class or the interface declared under it, and else for the primitive type so
called.  What has been entered into the table besides does not matter.

* `declared?` — the class or the interface declared under a name, with everything that has been
  declared for it;
* `WellFormed.declared?_declare`, `WellFormed.declared?_foldl` — what a declaration adds to it, and
  what several do;
* `KnownPrimitives` — the primitive types of a table are those it started with;
* `nameForm?_eq` — what a name stands for, in terms of these two.
-/

namespace DateFields

/-- The declaration with the bases and the properties of another one added to it. -/
def TypeDeclaration.extend (e d : TypeDeclaration) : TypeDeclaration :=
  { e with bases := e.bases ++ d.bases, properties := e.properties ++ d.properties }

namespace TypeTable

/-- The declaration of a class or an interface. -/
def Entry.declaration? : Entry → Option TypeDeclaration
  | .object d => some d
  | _ => none

/-- The class or the interface that is declared under a name. -/
def declared? (t : TypeTable) (name : String) : Option TypeDeclaration :=
  (t.entries.filterMap Entry.declaration?).find? (·.name == name)

variable {t u : TypeTable} {name : String} {d e : TypeDeclaration}

theorem Entry.declaration?_eq_some {x : Entry} : x.declaration? = some d ↔ x = .object d := by
  cases x <;> simp [declaration?]

theorem mem_filterMap_declaration? :
    d ∈ t.entries.filterMap Entry.declaration? ↔ ∃ id, t.entryAt? id = some (.object d) := by
  rw [List.mem_filterMap]
  simp only [Entry.declaration?_eq_some, exists_eq_right, entryAt?, List.mem_iff_getElem?]

/-- There is one class or interface of a name at most. -/
theorem WellFormed.declared?_eq_some_iff (ht : t.WellFormed) :
    t.declared? name = some d ↔ ∃ id, t.entryAt? id = some (.object d) ∧ d.name = name := by
  have hsound : ∀ {d}, t.declared? name = some d →
      (∃ id, t.entryAt? id = some (.object d)) ∧ d.name = name := by
    intro d h
    have hname := List.find?_some h
    exact ⟨mem_filterMap_declaration?.1 (List.mem_of_find?_eq_some h), by simpa using hname⟩
  constructor
  · intro h
    obtain ⟨⟨id, hid⟩, hname⟩ := hsound h
    exact ⟨id, hid, hname⟩
  · rintro ⟨id, hid, hname⟩
    cases hfind : t.declared? name with
    | none =>
      have hno := List.find?_eq_none.1 hfind d (mem_filterMap_declaration?.2 ⟨id, hid⟩)
      simp [hname] at hno
    | some d' =>
      obtain ⟨⟨id', hid'⟩, hname'⟩ := hsound hfind
      obtain rfl := ht.object_inj hid hid' (hname.trans hname'.symm)
      rw [hid] at hid'
      cases hid'
      rfl

theorem WellFormed.declared?_eq_none_iff (ht : t.WellFormed) :
    t.declared? name = none ↔ ∀ id d, t.entryAt? id = some (.object d) → d.name ≠ name := by
  rw [Option.eq_none_iff_forall_not_mem]
  constructor
  · exact fun h id d hid hname => h d (ht.declared?_eq_some_iff.2 ⟨id, hid, hname⟩)
  · intro h d hd
    obtain ⟨id, hid, hname⟩ := ht.declared?_eq_some_iff.1 hd
    exact h id d hid hname

/-! ### Declarations -/

/-- A declaration adds to what is declared under its name, and to nothing else. -/
theorem WellFormed.declared?_declare (ht : t.WellFormed) (d : TypeDeclaration) (name : String) :
    (t.declare d).2.declared? name =
      if d.name = name then some ((t.declared? name).elim d (·.extend d)) else t.declared? name := by
  have hu := ht.declare d
  cases hfind : t.entries.findIdx? (Entry.isObjectNamed d.name) with
  | none =>
    have hdeclare : (t.declare d).2 = { t with entries := t.entries ++ [.object d] } := by
      rw [TypeTable.declare, hfind]
    have hnone : t.declared? d.name = none :=
      ht.declared?_eq_none_iff.2 fun id e hid => not_isObjectNamed hfind hid
    rw [hdeclare] at hu ⊢
    by_cases hname : d.name = name
    · subst hname
      rw [if_pos rfl, hnone]
      exact hu.declared?_eq_some_iff.2 ⟨_, entryAt?_append_length, rfl⟩
    · rw [if_neg hname]
      ext e
      rw [hu.declared?_eq_some_iff, ht.declared?_eq_some_iff]
      refine exists_congr fun id => and_congr_left fun he => ?_
      rw [entryAt?_append, or_iff_left]
      rintro ⟨-, hed⟩
      cases hed
      exact hname he
  | some id =>
    obtain ⟨d₀, hid, hd₀⟩ := findIdx?_isObjectNamed hfind
    have hdeclare : (t.declare d).2 = { t with entries := t.entries.modify id (Entry.extend d) } := by
      rw [TypeTable.declare, hfind]
    have hsome : t.declared? d.name = some d₀ := ht.declared?_eq_some_iff.2 ⟨id, hid, hd₀⟩
    rw [hdeclare] at hu ⊢
    by_cases hname : d.name = name
    · subst hname
      rw [if_pos rfl, hsome]
      exact hu.declared?_eq_some_iff.2 ⟨id, (entryAt?_modify hid).2 (.inr ⟨rfl, rfl⟩), hd₀⟩
    · rw [if_neg hname]
      ext e
      rw [hu.declared?_eq_some_iff, ht.declared?_eq_some_iff]
      refine exists_congr fun j => and_congr_left fun he => ?_
      rw [entryAt?_modify hid]
      -- the entry that changes has the other name, before and after
      constructor
      · rintro (⟨-, hj⟩ | ⟨-, hed⟩)
        · exact hj
        · cases hed
          exact absurd (hd₀.symm.trans he) hname
      · intro hj
        refine .inl ⟨?_, hj⟩
        rintro rfl
        rw [hid] at hj
        cases hj
        exact hname (hd₀.symm.trans he)

/-- What has been entered without a name declares nothing. -/
theorem Extends.declared?_eq (h : t.Extends u) : u.declared? = t.declared? := by
  obtain ⟨new, hentries, hnew⟩ := h.entries
  have hnone : new.filterMap Entry.declaration? = [] := by
    rw [List.filterMap_eq_nil_iff]
    intro e he
    cases e with
    | object d => cases hnew _ he
    | _ => rfl
  funext name
  rw [declared?, declared?, hentries, List.filterMap_append, hnone, List.append_nil]

/-- What is declared under a name, once more declarations have been made one after the other, is
told by those of that name. -/
theorem WellFormed.declared?_foldl (ht : t.WellFormed) (types : List TypeDeclaration)
    (name : String) : (types.foldl (fun t d => (t.declare d).2) t).declared? name =
      (types.filter (·.name = name)).foldl (fun found d => some (found.elim d (·.extend d)))
        (t.declared? name) := by
  induction types generalizing t with
  | nil => rfl
  | cons d types ih =>
    rw [List.foldl_cons, ih (ht.declare d), ht.declared?_declare, List.filter_cons]
    by_cases hname : d.name = name <;> simp [hname]

theorem entries_bind (t : TypeTable) (b : CallBinding) : (t.bind b).entries = t.entries := by
  rw [bind]
  split <;> rfl

theorem entries_foldl_bind (calls : List CallBinding) (t : TypeTable) :
    (calls.foldl bind t).entries = t.entries := by
  induction calls generalizing t with
  | nil => rfl
  | cons b calls ih => rw [List.foldl_cons, ih, entries_bind]

theorem bindings_declare (t : TypeTable) (d : TypeDeclaration) :
    (t.declare d).2.bindings = t.bindings := by
  rw [declare]
  split <;> rfl

theorem bindings_foldl_declare (types : List TypeDeclaration) (t : TypeTable) :
    (types.foldl (fun t d => (t.declare d).2) t).bindings = t.bindings := by
  induction types generalizing t with
  | nil => rfl
  | cons d types ih => rw [List.foldl_cons, ih, bindings_declare]

theorem bindings_foldl_bind (calls : List CallBinding) (h : t.bindings = u.bindings) :
    (calls.foldl bind t).bindings = (calls.foldl bind u).bindings := by
  induction calls generalizing t u with
  | nil => exact h
  | cons b calls ih =>
    refine ih ?_
    rw [bind, bind]
    split <;> simp [h]

/-! ### Names -/

/-- The primitive types of the table are those that every table starts with. -/
def KnownPrimitives (t : TypeTable) : Prop :=
  ∀ id name, t.entryAt? id = some (.primitive name) → name ∈ primitiveNames

theorem knownPrimitives_new : new.KnownPrimitives := by
  intro id name h
  rcases entryAt?_new h with ⟨n, hn, he⟩ | he
  · cases he
    exact hn
  · cases he

theorem KnownPrimitives.extends (ht : t.KnownPrimitives) (h : t.Extends u) : u.KnownPrimitives :=
  fun id name hid => ht id name (h.entryAt?_of_named hid rfl)

theorem KnownPrimitives.declare (ht : t.KnownPrimitives) (d : TypeDeclaration) :
    (t.declare d).2.KnownPrimitives := by
  intro id name hid
  rcases entryAt?_declare hid with hid | ⟨d', hd', -⟩
  · exact ht id name hid
  · cases hd'

theorem KnownPrimitives.apply (ht : t.KnownPrimitives) (op : Operation) :
    (op.apply t).KnownPrimitives := by
  cases op with
  | declare d => exact ht.declare d
  | bind b =>
    intro id name hid
    rw [entryAt?, Operation.apply, entries_bind] at hid
    exact ht id name hid
  | resolve e => exact ht.extends (grows_resolve e t)
  | nonNullable id => exact ht.extends (grows_nonNullable id t)

theorem knownPrimitives_ofOperations (ops : List Operation) :
    (ofOperations ops).KnownPrimitives :=
  List.foldlRecOn ops Operation.apply knownPrimitives_new fun _ ht op _ => ht.apply op

/-- A class or an interface is found by its name. -/
theorem WellFormed.lookup?_object (ht : t.WellFormed) {id : TypeId}
    (h : t.entryAt? id = some (.object d)) : t.lookup? d.name = some id := by
  rw [lookup?]
  cases hfind : t.entries.findIdx? (Entry.isObjectNamed d.name) with
  | none => exact absurd rfl (not_isObjectNamed hfind h)
  | some j =>
    obtain ⟨d', hj, hd'⟩ := findIdx?_isObjectNamed hfind
    obtain rfl := ht.object_inj hj h hd'
    rfl

theorem WellFormed.nameForm?_object (ht : t.WellFormed) {id : TypeId}
    (h : t.entryAt? id = some (.object d)) : t.nameForm? d.name = some (.reference d.name []) := by
  rw [nameForm?, ht.lookup?_object h, Option.map_some, ht.form_of_entry h, Entry.expr]

/-- A name stands for the class or the interface declared under it, and else for the primitive type
so called. -/
theorem nameForm?_eq (ht : t.WellFormed) (hk : t.KnownPrimitives) (name : String) :
    t.nameForm? name = if (t.declared? name).isSome then some (.reference name [])
      else if name ∈ primitiveNames then some (.keyword name) else none := by
  cases hdeclared : t.declared? name with
  | some d =>
    obtain ⟨id, hid, rfl⟩ := ht.declared?_eq_some_iff.1 hdeclared
    exact ht.nameForm?_object hid
  | none =>
    rw [Option.isSome_none, if_neg Bool.false_ne_true]
    cases hfound : t.lookup? name with
    | some id =>
      rcases lookup?_some hfound with ⟨d, hid, hname⟩ | hid
      · exact absurd hname (ht.declared?_eq_none_iff.1 hdeclared id d hid)
      · rw [if_pos (hk id name hid), nameForm?, hfound, Option.map_some, ht.form_of_entry hid]
        rfl
    | none =>
      rw [if_neg, nameForm?, hfound, Option.map_none]
      intro hname
      obtain ⟨id, hid⟩ := ht.exists_lookup? hname
      rw [hfound] at hid
      cases hid

end TypeTable

end DateFields
