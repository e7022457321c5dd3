import DateFields.Proofs.TypeTable.Declarations
import Mathlib.Data.List.Forall2
import Mathlib.Data.List.Nodup

/-!
# Properties and forms

The properties of a type depend on its form and on what is declared, not on the numbers that the
types of a table have.

* `originsWithin_eq` — more steps than there are unseen types make no difference to a walk along the
  types that properties come from;
* `SameNames` — two tables with the same declarations, whatever else has been entered;
* `SameNames.structuredCount_eq` — such tables have the same number of structured types;
* `SameNames.properties_eq`, `SameNames.fieldType?_rel` — types of such tables that stand for the
  same have the same properties, and what the fields of a type are read as stands for the same.
-/

namespace DateFields.TypeTable

variable {t u v : TypeTable}

/-! ### Steps -/

/-- The number of types that have not been seen. -/
def unseen (t : TypeTable) (seen : List TypeId) : Nat :=
  (List.range t.entries.length).countP (· ∉ seen)

theorem unseen_mono {seen seen' : List TypeId} (h : seen ⊆ seen') : t.unseen seen' ≤ t.unseen seen := by
  refine List.countP_mono_left fun id _ hid => ?_
  simp only [decide_eq_true_eq] at hid ⊢
  exact fun hmem => hid (h hmem)

theorem unseen_append_lt {seen : List TypeId} {id : TypeId} (hid : id < t.entries.length)
    (hnew : id ∉ seen) : t.unseen (seen ++ [id]) < t.unseen seen := by
  have hfilter : (List.range t.entries.length).filter (· ∉ seen ++ [id]) =
      ((List.range t.entries.length).filter (· ∉ seen)).filter (· ≠ id) := by
    rw [List.filter_filter]
    refine List.filter_congr fun j _ => ?_
    simp [not_or, and_comm]
  rw [unseen, unseen, List.countP_eq_length_filter, List.countP_eq_length_filter, hfilter,
    List.length_filter_lt_length_iff_exists]
  exact ⟨id, by simp [hid, hnew], by simp⟩

theorem unseen_lt_length (t : TypeTable) (seen : List TypeId) :
    t.unseen seen < t.entries.length + 1 := by
  have := List.countP_le_length (p := (· ∉ seen)) (l := List.range t.entries.length)
  rw [List.length_range] at this
  exact Nat.lt_succ_of_le this

theorem parents_of_le {id : TypeId} (h : t.entries.length ≤ id) : t.parents id = [] := by
  rw [parents, entryAt?, List.getElem?_eq_none h]

theorem subset_foldl {walk : List TypeId → TypeId → List TypeId} (h : ∀ seen id, seen ⊆ walk seen id)
    (ids seen : List TypeId) : seen ⊆ ids.foldl walk seen := by
  induction ids generalizing seen with
  | nil => exact List.Subset.refl seen
  | cons id ids ih => exact List.Subset.trans (h seen id) (ih _)

theorem subset_originsWithin (t : TypeTable) (steps : Nat) (seen : List TypeId) (id : TypeId) :
    seen ⊆ t.originsWithin steps seen id := by
  induction steps generalizing seen id with
  | zero => exact List.Subset.refl seen
  | succ steps ih =>
    rw [originsWithin]
    split
    · exact List.Subset.refl seen
    · exact List.Subset.trans (List.subset_append_left seen [id]) (subset_foldl ih _ _)

/-- Walks from one type after the other agree when they agree on all lists that the first of them
may reach. -/
theorem foldl_originsWithin_congr {steps steps' bound : Nat}
    (h : ∀ seen id, t.unseen seen ≤ bound →
      t.originsWithin steps seen id = t.originsWithin steps' seen id)
    (ids seen : List TypeId) (hle : t.unseen seen ≤ bound) :
    ids.foldl (t.originsWithin steps) seen = ids.foldl (t.originsWithin steps') seen := by
  induction ids generalizing seen with
  | nil => rfl
  | cons id ids ih =>
    have hmono := unseen_mono (t := t) (subset_originsWithin t steps' seen id)
    rw [List.foldl_cons, List.foldl_cons, h seen id hle]
    exact ih _ (Nat.le_trans hmono hle)

/-- A walk that may take more steps than there are unseen types may as well take more. -/
theorem originsWithin_eq {steps steps' : Nat} {seen : List TypeId} {id : TypeId}
    (h : t.unseen seen < steps) (h' : t.unseen seen < steps') :
    t.originsWithin steps seen id = t.originsWithin steps' seen id := by
  induction steps generalizing steps' seen id with
  | zero => exact absurd h (Nat.not_lt_zero _)
  | succ steps ih =>
    obtain ⟨steps', rfl⟩ : ∃ n, steps' = n + 1 :=
      Nat.exists_eq_add_one.2 (Nat.lt_of_le_of_lt (Nat.zero_le _) h')
    rw [originsWithin, originsWithin]
    split
    · rfl
    rename_i hnew
    by_cases hid : id < t.entries.length
    · -- the type itself is seen now, and the walks from its parents only see more
      have hlt := unseen_append_lt hid hnew
      refine foldl_originsWithin_congr (fun seen' id' hle => ?_) _ _ (Nat.le_refl _)
      exact ih (by omega) (by omega)
    · rw [parents_of_le (Nat.le_of_not_lt hid)]
      rfl

/-! ### Tables with the same declarations -/

/-- Two tables in which names stand for the same and declare the same. -/
structure SameNames (t u : TypeTable) : Prop where
  /-- A name stands for the same. -/
  names : t.nameForm? = u.nameForm?
  /-- A class or an interface is declared alike. -/
  object : ∀ {i j : TypeId} {d d' : TypeDeclaration}, t.entryAt? i = some (.object d) →
    u.entryAt? j = some (.object d') → d.name = d'.name →
      d.bases = d'.bases ∧ d.properties = d'.properties

/-- Tables that a table has grown into have the declarations of that table. -/
theorem Extends.sameNames (h : t.Extends u) (h' : t.Extends v) (ht : t.WellFormed) :
    u.SameNames v := by
  refine ⟨(h.nameForm?_eq ht).trans (h'.nameForm?_eq ht).symm, fun hi hj hn => ?_⟩
  have hi := h.entryAt?_of_named hi rfl
  have hj := h'.entryAt?_of_named hj rfl
  obtain rfl := ht.object_inj hi hj hn
  rw [hi] at hj
  cases hj
  exact ⟨rfl, rfl⟩

/-- Tables that have grown have names alike if they had before. -/
theorem SameNames.extend {t' u' : TypeTable} (h : t.SameNames u) (ht : t.WellFormed)
    (hu : u.WellFormed) (htt' : t.Extends t') (huu' : u.Extends u') : t'.SameNames u' :=
  ⟨(htt'.nameForm?_eq ht).trans (h.names.trans (huu'.nameForm?_eq hu).symm), fun hi hj hn =>
    h.object (htt'.entryAt?_of_named hi rfl) (huu'.entryAt?_of_named hj rfl) hn⟩

/-- Tables that declare the same under every name have names alike. -/
theorem sameNames_of_declared? (ht : t.WellFormed) (hu : u.WellFormed) (hkt : t.KnownPrimitives)
    (hku : u.KnownPrimitives) (h : t.declared? = u.declared?) : t.SameNames u := by
  constructor
  case names =>
    funext name
    rw [nameForm?_eq ht hkt, nameForm?_eq hu hku, h]
  case object =>
    intro i j d d' hi hj hn
    have hd : t.declared? d.name = some d := ht.declared?_eq_some_iff.2 ⟨i, hi, rfl⟩
    have hd' : u.declared? d.name = some d' := hu.declared?_eq_some_iff.2 ⟨j, hj, hn.symm⟩
    rw [h, hd', Option.some_inj] at hd
    subst hd
    exact ⟨rfl, rfl⟩

theorem WellFormed.nameForm?_never (ht : t.WellFormed) : t.nameForm? "never" = some t.neverForm := by
  obtain ⟨id, hid⟩ := ht.lookup?_never
  rw [nameForm?, neverForm, never, hid]
  rfl

theorem SameNames.neverForm_eq (h : t.SameNames u) (ht : t.WellFormed) (hu : u.WellFormed) :
    t.neverForm = u.neverForm := by
  have hnever := congrFun h.names "never"
  rwa [ht.nameForm?_never, hu.nameForm?_never, Option.some_inj] at hnever

/-- The names of the classes and interfaces of a table. -/
def objectNames (t : TypeTable) : List String :=
  (t.entries.filterMap Entry.declaration?).map TypeDeclaration.name

theorem WellFormed.mem_objectNames (ht : t.WellFormed) {name : String} :
    name ∈ t.objectNames ↔ t.nameForm? name = some (.reference name []) := by
  rw [objectNames, List.mem_map]
  constructor
  · rintro ⟨d, hd, rfl⟩
    obtain ⟨id, hid⟩ := mem_filterMap_declaration?.1 hd
    exact ht.nameForm?_object hid
  · intro h
    obtain ⟨id, hid, hform⟩ := Option.map_eq_some_iff.1 h
    rcases lookup?_some hid with ⟨d, hd, hname⟩ | hp
    · exact ⟨d, mem_filterMap_declaration?.2 ⟨id, hd⟩, hname⟩
    · rw [ht.form_of_entry hp] at hform
      cases hform

theorem WellFormed.nodup_objectNames (ht : t.WellFormed) : t.objectNames.Nodup := by
  rw [objectNames, List.Nodup, List.pairwise_map, List.pairwise_filterMap,
    List.pairwise_iff_getElem]
  intro i j hi hj hij d hd d' hd' hname
  have hd : t.entryAt? i = some (.object d) := by
    rw [entryAt?, List.getElem?_eq_getElem hi, Entry.declaration?_eq_some.1 hd]
  have hd' : t.entryAt? j = some (.object d') := by
    rw [entryAt?, List.getElem?_eq_getElem hj, Entry.declaration?_eq_some.1 hd']
  exact absurd (ht.object_inj hd hd' hname) (Nat.ne_of_lt hij)

theorem structuredCount_eq_length (t : TypeTable) : t.structuredCount = t.objectNames.length := by
  rw [structuredCount, objectNames, List.length_map, List.length_filterMap_eq_countP]
  refine List.countP_congr fun e _ => ?_
  cases e <;> simp [Entry.isObject, Entry.declaration?]

/-- Tables with names alike have equally many classes and interfaces. -/
theorem SameNames.structuredCount_eq (h : t.SameNames u) (ht : t.WellFormed) (hu : u.WellFormed) :
    t.structuredCount = u.structuredCount := by
  have hperm : t.objectNames.Perm u.objectNames := by
    rw [List.perm_ext_iff_of_nodup ht.nodup_objectNames hu.nodup_objectNames]
    intro name
    rw [ht.mem_objectNames, hu.mem_objectNames, h.names]
  rw [structuredCount_eq_length, structuredCount_eq_length, hperm.length_eq]

/-! ### Twins -/

/-- Types of two tables that stand for the same. -/
structure Twin (t u : TypeTable) (i j : TypeId) : Prop where
  /-- The first is in its table. -/
  left : i < t.entries.length
  /-- The second is in its table. -/
  right : j < u.entries.length
  /-- They stand for the same. -/
  form : t.form i = u.form j

theorem HasForm.twin {i j : TypeId} {f : TypeExpr} (hi : t.HasForm i f) (hj : u.HasForm j f) :
    Twin t u i j :=
  ⟨hi.lt, hj.lt, hi.form.trans hj.form.symm⟩

section Walk

variable {i j : TypeId}

/-- Twins have entries with the same expression. -/
theorem Twin.entries (ht : t.WellFormed) (hu : u.WellFormed) (hij : Twin t u i j) :
    ∃ e e', t.entryAt? i = some e ∧ u.entryAt? j = some e' ∧ e.expr t.form = e'.expr u.form := by
  obtain ⟨e, he⟩ := exists_entryAt? hij.left
  obtain ⟨e', he'⟩ := exists_entryAt? hij.right
  exact ⟨e, e', he, he', by rw [← ht.form_of_entry he, ← hu.form_of_entry he', hij.form]⟩

/-- Lists of types that stand for the same are twins one by one. -/
theorem twins_of_map_eq {is js : List TypeId} (hi : ∀ i ∈ is, i < t.entries.length)
    (hj : ∀ j ∈ js, j < u.entries.length) (h : is.map t.form = js.map u.form) :
    List.Forall₂ (Twin t u) is js := by
  induction is generalizing js with
  | nil => rw [List.map_eq_nil_iff.1 h.symm]; exact .nil
  | cons i is ih =>
    cases js with
    | nil => cases h
    | cons j js =>
      obtain ⟨hij, h⟩ := List.cons.inj h
      exact .cons ⟨hi i List.mem_cons_self, hj j List.mem_cons_self, hij⟩
        (ih (fun k hk => hi k (List.mem_cons_of_mem i hk))
          (fun k hk => hj k (List.mem_cons_of_mem j hk)) h)

/-- A type is among others just when its twin is among theirs. -/
theorem Twin.mem_iff (ht : t.WellFormed) (hu : u.WellFormed) (hij : Twin t u i j)
    {is js : List TypeId} (h : List.Forall₂ (Twin t u) is js) : i ∈ is ↔ j ∈ js := by
  induction h with
  | nil => simp
  | @cons k l is js hkl _ ih =>
    have hhead : i = k ↔ j = l := by
      constructor
      · rintro rfl
        exact hu.form_inj hij.right hkl.right (hij.form.symm.trans hkl.form)
      · rintro rfl
        exact ht.form_inj hij.left hkl.left (hij.form.trans hkl.form.symm)
    rw [List.mem_cons, List.mem_cons, hhead, ih]

variable (h : t.SameNames u) (ht : t.WellFormed) (hu : u.WellFormed)

include h in
/-- Names that are known in both tables are twins. -/
theorem SameNames.lookups (names : List String) :
    List.Forall₂ (Twin t u) (names.filterMap t.lookup?) (names.filterMap u.lookup?) := by
  induction names with
  | nil => exact .nil
  | cons name names ih =>
    have hname := congrFun h.names name
    rw [nameForm?, nameForm?] at hname
    rw [List.filterMap_cons, List.filterMap_cons]
    cases ha : t.lookup? name <;> cases hb : u.lookup? name <;>
      simp only [ha, hb, Option.map_none, Option.map_some, Option.some.injEq, reduceCtorEq] at hname
    · exact ih
    · exact .cons ⟨lookup?_lt ha, lookup?_lt hb, hname⟩ ih

include h ht hu

/-- Twins list the same properties. -/
theorem SameNames.ownProperties_eq (hij : Twin t u i j) : t.ownProperties i = u.ownProperties j := by
  obtain ⟨e, e', he, he', hf⟩ := hij.entries ht hu
  rw [ownProperties, ownProperties, he, he']
  cases e <;> cases e' <;> simp only [Entry.expr, reduceCtorEq] at hf <;> try rfl
  case object.object d d' => exact (h.object he he' (TypeExpr.reference.inj hf).1).2
  case literal.literal => exact TypeExpr.literal.inj hf

/-- Twins take their properties from twins. -/
theorem SameNames.parents_twins (hij : Twin t u i j) :
    List.Forall₂ (Twin t u) (t.parents i) (u.parents j) := by
  obtain ⟨e, e', he, he', hf⟩ := hij.entries ht hu
  have hlt := fun m hm => Nat.lt_trans (ht.parts_lt he m hm) hij.left
  have hlt' := fun m hm => Nat.lt_trans (hu.parts_lt he' m hm) hij.right
  rw [parents, parents, he, he']
  cases e <;> cases e' <;> simp only [Entry.expr, reduceCtorEq] at hf <;> try exact .nil
  case object.object d d' =>
    simp only
    rw [(h.object he he' (TypeExpr.reference.inj hf).1).1]
    exact h.lookups d'.bases
  case intersection.intersection =>
    exact twins_of_map_eq hlt hlt' (TypeExpr.intersection.inj hf)

/-- Walks from twins meet twins. -/
theorem SameNames.originsWithin_twins (steps : Nat) {seen seen' : List TypeId}
    (hij : Twin t u i j) (hs : List.Forall₂ (Twin t u) seen seen') :
    List.Forall₂ (Twin t u) (t.originsWithin steps seen i) (u.originsWithin steps seen' j) := by
  induction steps generalizing i j seen seen' with
  | zero => exact hs
  | succ steps ih =>
    rw [originsWithin, originsWithin]
    by_cases hmem : i ∈ seen
    · rw [if_pos hmem, if_pos ((hij.mem_iff ht hu hs).1 hmem)]
      exact hs
    · rw [if_neg hmem, if_neg (mt (hij.mem_iff ht hu hs).2 hmem)]
      have hs : List.Forall₂ (Twin t u) (seen ++ [i]) (seen' ++ [j]) :=
        List.rel_append hs (.cons hij .nil)
      -- the walks go from parent to parent side by side
      have hps := h.parents_twins ht hu hij
      generalize seen ++ [i] = seen at hs
      generalize seen' ++ [j] = seen' at hs
      generalize t.parents i = is at hps
      generalize u.parents j = js at hps
      induction hps generalizing seen seen' with
      | nil => exact hs
      | cons hp _ ihps => exact ihps _ _ (ih hp hs)

/-- Twins have the same properties. -/
theorem SameNames.properties_eq (hij : Twin t u i j) : t.properties i = u.properties j := by
  let steps := max t.entries.length u.entries.length + 1
  have horigins : ∀ (w : TypeTable) id, w.entries.length + 1 ≤ steps →
      w.origins id = w.originsWithin steps [] id := fun w id hle =>
    originsWithin_eq (w.unseen_lt_length []) (Nat.lt_of_lt_of_le (w.unseen_lt_length []) hle)
  have htwins := h.originsWithin_twins ht hu steps hij .nil
  rw [properties, properties, horigins t i (by omega), horigins u j (by omega)]
  refine congrArg _ ?_
  generalize t.originsWithin steps [] i = is at htwins
  generalize u.originsWithin steps [] j = js at htwins
  induction htwins with
  | nil => rfl
  | cons hab _ ih => rw [List.flatMap_cons, List.flatMap_cons, h.ownProperties_eq ht hu hab, ih]

end Walk

/-! ### Fields -/

/-- Two tables read the type of a field alike: as the same leaf, or as structured types that stand
for the same. -/
inductive FieldTwin (t u : TypeTable) : FieldType → FieldType → Prop
  /-- A leaf. -/
  | leaf (name : String) : FieldTwin t u (.leaf name) (.leaf name)
  /-- A class or an interface. -/
  | structured {i j : TypeId} (hij : Twin t u i j) : FieldTwin t u (.structured i) (.structured j)

/-- A form is read alike in all tables. -/
theorem ReadAs.twin (ht : t.WellFormed) (hu : u.WellFormed) {timestamp : String} {a b : FieldType}
    {f : TypeExpr} (ha : t.ReadAs timestamp a f) (hb : u.ReadAs timestamp b f) :
    FieldTwin t u a b := by
  cases ha with
  | @structured i d hi hne =>
    generalize hf : TypeExpr.reference d.name [] = f at hb
    cases hb with
    | @structured j d' hj _ =>
      refine .structured ((ht.hasForm_of_entry hi).twin ?_)
      rw [Entry.expr, hf]
      exact hu.hasForm_of_entry hj
    | leaf h =>
      subst hf
      rcases h with h | h
      · exact absurd h hne
      · exact absurd rfl (h d.name)
  | leaf h =>
    cases hb with
    | structured hj hne =>
      rcases h with h | h
      · exact absurd h hne
      · exact absurd rfl (h _)
    | leaf _ => exact .leaf _

/-- Tables with names alike read the type of a field alike. -/
theorem SameNames.fieldType?_rel (h : t.SameNames u) (ht : t.WellFormed) (hu : u.WellFormed)
    (timestamp : String) (declared : TypeExpr) :
    Option.Rel (FieldTwin t u) (t.fieldType? timestamp declared) (u.fieldType? timestamp declared) := by
  have hread := ht.fieldType?_readAs timestamp declared
  have hread' := hu.fieldType?_readAs timestamp declared
  rw [fieldForm?, ← h.names, ← h.neverForm_eq ht hu, ← fieldForm?] at hread'
  generalize t.fieldForm? declared = x at hread hread'
  generalize t.fieldType? timestamp declared = a at hread ⊢
  generalize u.fieldType? timestamp declared = b at hread' ⊢
  cases hread with
  | none => cases hread'; exact .none
  | some ha =>
    cases hread' with
    | some hb => exact .some (ha.twin ht hu hb)

/-- A field comes to in an extension of a table what it comes to in the table. -/
theorem Extends.fieldType?_eq (h : t.Extends u) (ht : t.WellFormed) (hu : u.WellFormed)
    (timestamp : String) (declared : TypeExpr) :
    u.fieldType? timestamp declared = t.fieldType? timestamp declared := by
  have hrel := ((Extends.refl t).sameNames h ht).fieldType?_rel ht hu timestamp declared
  generalize t.fieldType? timestamp declared = a at hrel ⊢
  generalize u.fieldType? timestamp declared = b at hrel ⊢
  cases hrel with
  | none => rfl
  | some hab =>
    cases hab with
    | leaf => rfl
    | structured hij =>
      have hsame := hij.form.symm.trans (h.form_eq ht hij.left).symm
      rw [hu.form_inj hij.right (Nat.lt_of_lt_of_le hij.left h.length_le) hsame]

/-- A type has the properties it had before. -/
theorem Extends.properties_eq (h : t.Extends u) (ht : t.WellFormed) (hu : u.WellFormed)
    {id : TypeId} (hid : id < t.entries.length) : u.properties id = t.properties id :=
  (((Extends.refl t).sameNames h ht).properties_eq ht hu
    ⟨hid, Nat.lt_of_lt_of_le hid h.length_le, (h.form_eq ht hid).symm⟩).symm

end DateFields.TypeTable
