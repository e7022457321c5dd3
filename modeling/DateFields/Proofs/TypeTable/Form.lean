import DateFields.Proofs.TypeTable.WellFormed

/-!
# What a type is

A type of the table stands for an expression: its entry with the types it is made from spelled out.
The expression says all there is to the type.

* `form` — the expression a type stands for; names of primitive types are keywords, names of
  classes and interfaces are references;
* `WellFormed.form_inj` — two types of a table that stand for the same expression are the same;
* `Extends.form_eq` — a type stands for what it stood for before;
* `typeText_eq` — the spelling of a type is the text of its expression.
-/

namespace DateFields

/-! ### Spelling of combined types -/

namespace TypeExpr

/-- A union between parentheses; any other expression as it is. -/
def inParens : TypeExpr → TypeExpr
  | .union members => .parenthesized (.union members)
  | e => e

mutual

/-- The expression with parentheses around the unions that are members of an intersection. -/
def grouped : TypeExpr → TypeExpr
  | .array e => .array e.grouped
  | .union members => .union (groupedAll members)
  | .intersection members => .intersection (groupedMembers members)
  | e => e

/-- Each expression with such parentheses. -/
def groupedAll : List TypeExpr → List TypeExpr
  | [] => []
  | e :: es => e.grouped :: groupedAll es

/-- The members of an intersection with such parentheses. -/
def groupedMembers : List TypeExpr → List TypeExpr
  | [] => []
  | e :: es => e.grouped.inParens :: groupedMembers es

end

theorem groupedAll_eq (es : List TypeExpr) : groupedAll es = es.map grouped := by
  induction es with
  | nil => rfl
  | cons e es ih => rw [groupedAll, ih, List.map_cons]

theorem groupedMembers_eq (es : List TypeExpr) :
    groupedMembers es = es.map fun e => e.grouped.inParens := by
  induction es with
  | nil => rfl
  | cons e es ih => rw [groupedMembers, ih, List.map_cons]

theorem isCombination_grouped (e : TypeExpr) : e.grouped.isCombination = e.isCombination := by
  cases e <;> rfl

end TypeExpr

namespace TypeTable

/-! ### Forms -/

/-- The expression of an entry, given those of its parts. -/
def Entry.expr (part : TypeId → TypeExpr) : Entry → TypeExpr
  | .primitive name => .keyword name
  | .object d => .reference d.name []
  | .literal members => .literal members
  | .array e => .array (part e)
  | .union members => .union (members.map part)
  | .intersection members => .intersection (members.map part)

/-- The expression a type stands for, its parts looked into for so many levels. -/
def formWithin (t : TypeTable) : Nat → TypeId → TypeExpr
  | 0, _ => .other "unknown"
  | levels + 1, id =>
    match t.entryAt? id with
    | none => .other "unknown"
    | some e => e.expr (t.formWithin levels)

/-- The expression a type stands for. -/
def form (t : TypeTable) (id : TypeId) : TypeExpr := t.formWithin (id + 1) id

/-- What a name stands for. -/
def nameForm? (t : TypeTable) (name : String) : Option TypeExpr := (t.lookup? name).map t.form

variable {t u : TypeTable}

theorem Entry.expr_congr {e : Entry} {f g : TypeId → TypeExpr} (h : ∀ m ∈ e.parts, f m = g m) :
    e.expr f = e.expr g := by
  cases e with
  | array a => exact congrArg TypeExpr.array (h a (by simp [parts]))
  | union members => exact congrArg TypeExpr.union (List.map_congr_left h)
  | intersection members => exact congrArg TypeExpr.intersection (List.map_congr_left h)
  | primitive | object | literal => rfl

theorem formWithin_succ {id : TypeId} {e : Entry} (he : t.entryAt? id = some e) (levels : Nat) :
    t.formWithin (levels + 1) id = e.expr (t.formWithin levels) := by
  rw [formWithin, he]

/-- Levels beyond the number of a type make no difference. -/
theorem WellFormed.formWithin_eq (h : t.WellFormed) {id : TypeId} {levels : Nat}
    (hid : id < levels) : t.formWithin levels id = t.form id := by
  induction id using Nat.strongRecOn generalizing levels with
  | _ id ih =>
    obtain ⟨levels, rfl⟩ : ∃ n, levels = n + 1 :=
      Nat.exists_eq_add_one.2 (Nat.lt_of_le_of_lt (Nat.zero_le _) hid)
    cases he : t.entryAt? id with
    | none => rw [form, formWithin, formWithin, he]
    | some e =>
      rw [form, formWithin_succ he, formWithin_succ he]
      refine Entry.expr_congr fun m hm => ?_
      have hlt := h.parts_lt he m hm
      rw [ih m hlt (Nat.lt_of_lt_of_le hlt (Nat.le_of_lt_succ hid)), ih m hlt hlt]

/-- A type stands for its entry with the parts spelled out. -/
theorem WellFormed.form_of_entry (h : t.WellFormed) {id : TypeId} {e : Entry}
    (he : t.entryAt? id = some e) : t.form id = e.expr t.form := by
  rw [form, formWithin_succ he]
  exact Entry.expr_congr fun m hm => h.formWithin_eq (h.parts_lt he m hm)

/-- Lists with the same images are the same, if the images tell their members apart. -/
theorem eq_of_map_eq {α β : Type} {f : α → β} {as bs : List α}
    (hinj : ∀ a ∈ as, ∀ b ∈ bs, f a = f b → a = b) (h : as.map f = bs.map f) : as = bs := by
  induction as generalizing bs with
  | nil => exact (List.map_eq_nil_iff.1 h.symm).symm
  | cons a as ih =>
    cases bs with
    | nil => cases h
    | cons b bs =>
      obtain ⟨hhead, htail⟩ := List.cons.inj h
      rw [hinj a List.mem_cons_self b List.mem_cons_self hhead, ih (fun a' ha b' hb =>
        hinj a' (List.mem_cons_of_mem a ha) b' (List.mem_cons_of_mem b hb)) htail]

/-- Entries with the same expression are the same, up to what a declaration says of its name. -/
theorem Entry.eq_of_expr_eq {e e' : Entry} {f : TypeId → TypeExpr} (h : e.expr f = e'.expr f)
    (hinj : ∀ m ∈ e.parts, ∀ m' ∈ e'.parts, f m = f m' → m = m') :
    e = e' ∨ ∃ d d', e = .object d ∧ e' = .object d' ∧ d.name = d'.name := by
  cases e <;> cases e' <;> simp only [Entry.expr, TypeExpr.keyword.injEq, TypeExpr.reference.injEq,
    TypeExpr.literal.injEq, TypeExpr.array.injEq, TypeExpr.union.injEq, TypeExpr.intersection.injEq,
    reduceCtorEq] at h
  case primitive.primitive => exact .inl (congrArg Entry.primitive h)
  case object.object => exact .inr ⟨_, _, rfl, rfl, h.1⟩
  case literal.literal => exact .inl (congrArg Entry.literal h)
  case array.array =>
    exact .inl (congrArg Entry.array (hinj _ (by simp [parts]) _ (by simp [parts]) h))
  case union.union => exact .inl (congrArg Entry.union (eq_of_map_eq hinj h))
  case intersection.intersection => exact .inl (congrArg Entry.intersection (eq_of_map_eq hinj h))

theorem exists_entryAt? {id : TypeId} (h : id < t.entries.length) : ∃ e, t.entryAt? id = some e :=
  ⟨t.entries[id], List.getElem?_eq_getElem h⟩

/-- A type is known by what it stands for. -/
theorem WellFormed.form_inj (h : t.WellFormed) {i j : TypeId} (hi : i < t.entries.length)
    (hj : j < t.entries.length) (hij : t.form i = t.form j) : i = j := by
  induction i using Nat.strongRecOn generalizing j with
  | _ i ih =>
    obtain ⟨e, he⟩ := exists_entryAt? hi
    obtain ⟨e', he'⟩ := exists_entryAt? hj
    rw [h.form_of_entry he, h.form_of_entry he'] at hij
    have hparts : ∀ m ∈ e.parts, ∀ m' ∈ e'.parts, t.form m = t.form m' → m = m' :=
      fun m hm m' hm' => ih m (h.parts_lt he m hm) (Nat.lt_trans (h.parts_lt he m hm) hi)
        (Nat.lt_trans (h.parts_lt he' m' hm') hj)
    rcases Entry.eq_of_expr_eq hij hparts with rfl | ⟨d, d', rfl, rfl, hd⟩
    · exact h.entry_inj he he'
    · exact h.object_inj he he' hd

/-- A table whose entries spell like those of another one has types that stand for the same. -/
theorem WellFormed.formWithin_congr (ht : t.WellFormed)
    (h : ∀ id e, t.entryAt? id = some e → ∃ e', u.entryAt? id = some e' ∧ ∀ f, e'.expr f = e.expr f)
    {id : TypeId} (hid : id < t.entries.length) (levels : Nat) :
    u.formWithin levels id = t.formWithin levels id := by
  induction levels generalizing id with
  | zero => rfl
  | succ levels ih =>
    obtain ⟨e, he⟩ := exists_entryAt? hid
    obtain ⟨e', he', hexpr⟩ := h id e he
    rw [formWithin_succ he, formWithin_succ he', hexpr]
    exact Entry.expr_congr fun m hm => ih (Nat.lt_trans (ht.parts_lt he m hm) hid)

/-- A type stands for what it stood for before. -/
theorem Extends.form_eq (h : t.Extends u) (ht : t.WellFormed) {id : TypeId}
    (hid : id < t.entries.length) : u.form id = t.form id :=
  ht.formWithin_congr (fun _ e he => ⟨e, h.entryAt?_some he, fun _ => rfl⟩) hid _

/-! ### Names -/

theorem lookup?_some {name : String} {id : TypeId} (h : t.lookup? name = some id) :
    (∃ d, t.entryAt? id = some (.object d) ∧ d.name = name) ∨ t.entryAt? id = some (.primitive name) := by
  simp only [lookup?, Option.orElse_eq_orElse, Option.orElse_eq_or, Option.or_eq_some_iff] at h
  rcases h with h | ⟨-, h⟩
  · exact .inl (findIdx?_isObjectNamed h)
  · obtain ⟨hlt, hp, -⟩ := List.findIdx?_eq_some_iff_getElem.1 h
    refine .inr ?_
    rw [entryAt?, List.getElem?_eq_getElem hlt]
    cases he : t.entries[id] with
    | primitive n => rw [he] at hp; simpa [Entry.isPrimitiveNamed] using hp
    | _ => rw [he] at hp; simp [Entry.isPrimitiveNamed] at hp

theorem lookup?_lt {name : String} {id : TypeId} (h : t.lookup? name = some id) :
    id < t.entries.length := by
  rcases lookup?_some h with ⟨d, hd, -⟩ | hp
  · exact lt_of_entryAt? hd
  · exact lt_of_entryAt? hp

/-- The name of a primitive type always leads to a type. -/
theorem WellFormed.exists_lookup? (h : t.WellFormed) {name : String} (hname : name ∈ primitiveNames) :
    ∃ id, t.lookup? name = some id := by
  obtain ⟨id, hid⟩ := h.primitive name hname
  have hfind : (t.entries.findIdx? (Entry.isPrimitiveNamed name)).isSome = true := by
    rw [List.findIdx?_isSome, List.any_eq_true]
    exact ⟨_, List.mem_of_getElem? hid, by simp [Entry.isPrimitiveNamed]⟩
  rw [← Option.isSome_iff_exists]
  simp [lookup?, hfind]

/-- A name stands for what it stood for before. -/
theorem Extends.nameForm?_eq (h : t.Extends u) (ht : t.WellFormed) : u.nameForm? = t.nameForm? := by
  funext name
  rw [nameForm?, nameForm?, h.lookup?_eq]
  cases hl : t.lookup? name with
  | none => rfl
  | some id => exact congrArg some (h.form_eq ht (lookup?_lt hl))

/-! ### Spelling -/

theorem isUnion_iff {id : TypeId} :
    t.isUnion id = true ↔ ∃ members, t.entryAt? id = some (.union members) := by
  rw [isUnion]
  cases t.entryAt? id with
  | none => simp
  | some e => cases e <;> simp

theorem isIntersection_iff {id : TypeId} :
    t.isIntersection id = true ↔ ∃ members, t.entryAt? id = some (.intersection members) := by
  rw [isIntersection]
  cases t.entryAt? id with
  | none => simp
  | some e => cases e <;> simp

theorem WellFormed.isCombination_form (h : t.WellFormed) (id : TypeId) :
    (t.form id).isCombination = (t.isUnion id || t.isIntersection id) := by
  cases he : t.entryAt? id with
  | none => rw [form, formWithin, isUnion, isIntersection, he]; rfl
  | some e =>
    rw [h.form_of_entry he, isUnion, isIntersection, he]
    cases e <;> rfl

theorem text_array_grouped (e : TypeExpr) :
    (TypeExpr.array e).grouped.text = TypeTable.grouped e.isCombination e.grouped.text ++ "[]" := by
  rw [TypeExpr.grouped, TypeExpr.text, TypeExpr.isCombination_grouped, TypeTable.grouped]

theorem WellFormed.text_inParens (h : t.WellFormed) (id : TypeId) :
    (t.form id).grouped.inParens.text = TypeTable.grouped (t.isUnion id) (t.form id).grouped.text := by
  cases he : t.entryAt? id with
  | none => rw [form, formWithin, isUnion, he]; rfl
  | some e =>
    rw [h.form_of_entry he, isUnion, he]
    cases e with
    | union members => simp [Entry.expr, TypeExpr.grouped, TypeExpr.inParens, TypeExpr.text, grouped]
    | _ => rfl

theorem WellFormed.textWithin_eq (h : t.WellFormed) {id : TypeId} {levels : Nat}
    (hid : id < levels) : t.textWithin levels id = (t.form id).grouped.text := by
  induction id using Nat.strongRecOn generalizing levels with
  | _ id ih =>
    obtain ⟨levels, rfl⟩ : ∃ n, levels = n + 1 :=
      Nat.exists_eq_add_one.2 (Nat.lt_of_le_of_lt (Nat.zero_le _) hid)
    cases he : t.entryAt? id with
    | none => rw [textWithin, form, formWithin, he]; rfl
    | some e =>
      have hpart : ∀ m ∈ e.parts, t.textWithin levels m = (t.form m).grouped.text := fun m hm =>
        have hlt := h.parts_lt he m hm
        ih m hlt (Nat.lt_of_lt_of_le hlt (Nat.le_of_lt_succ hid))
      rw [h.form_of_entry he, textWithin, he]
      cases e with
      | primitive | object | literal => rfl
      | array a =>
        rw [Entry.expr, text_array_grouped, h.isCombination_form, ← hpart a (by simp [Entry.parts])]
      | union members =>
        simp only [Entry.expr, TypeExpr.grouped, TypeExpr.text, TypeExpr.textAll_eq,
          TypeExpr.groupedAll_eq, List.map_map]
        exact congrArg _ (List.map_congr_left fun m hm => hpart m hm)
      | intersection members =>
        simp only [Entry.expr, TypeExpr.grouped, TypeExpr.text, TypeExpr.textAll_eq,
          TypeExpr.groupedMembers_eq, List.map_map]
        refine congrArg _ (List.map_congr_left fun m hm => ?_)
        rw [hpart m hm, Function.comp_apply, Function.comp_apply, h.text_inParens]

/-- The spelling of a type is the text of what it stands for. -/
theorem WellFormed.typeText_eq (h : t.WellFormed) (id : TypeId) :
    t.typeText id = (t.form id).grouped.text :=
  h.textWithin_eq (Nat.lt_succ_self id)

end TypeTable

end DateFields
