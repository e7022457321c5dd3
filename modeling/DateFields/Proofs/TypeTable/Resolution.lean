import DateFields.Proofs.TypeTable.Form

/-!
# What expressions resolve to

What an expression resolves to is told by the names alone: the type stands for the normal form of
the expression, whatever has been entered into the table before.

* `TypeExpr.normal?` — the normal form: parentheses and the arguments of references gone, arrays
  written one way, unions and intersections flat;
* `Ensures` — what a computation makes of a well-formed table;
* `ensures_resolve` — resolving an expression gives a type that stands for its normal form;
* `ensures_nonNullable` — taking `null` out of a type takes it out of its form;
* `fieldType?_eq` — a field is classified in an extension of a table as in the table itself.
-/

namespace DateFields

/-! ### Normal forms -/

namespace TypeExpr

/-- The members of a union; any other expression is its only member. -/
def unionMembers : TypeExpr → List TypeExpr
  | .union members => members
  | e => [e]

/-- The members of an intersection; any other expression is its only member. -/
def intersectionMembers : TypeExpr → List TypeExpr
  | .intersection members => members
  | e => [e]

/-- The expression itself when there is one, and a combination otherwise. -/
def combined (combination : List TypeExpr → TypeExpr) : List TypeExpr → TypeExpr
  | [e] => e
  | es => combination es

/-- The flat union of expressions in normal form. -/
def unionOf (es : List TypeExpr) : TypeExpr :=
  combined .union (distinctBy id (es.flatMap unionMembers))

/-- The flat intersection of expressions in normal form. -/
def intersectionOf (es : List TypeExpr) : TypeExpr :=
  combined .intersection (distinctBy id (es.flatMap intersectionMembers))

section Normal

variable (names : String → Option TypeExpr)

mutual

/-- The normal form of an expression, given what names stand for. -/
def normal? : TypeExpr → Option TypeExpr
  | .keyword name => names name
  | .reference name [e] => if isArrayName name then (normal? e).bind (some <| .array ·) else names name
  | .reference name _ => names name
  | .array e => (normal? e).bind (some <| .array ·)
  | .union members => (normalAll? members).bind (some <| unionOf ·)
  | .intersection members => (normalAll? members).bind (some <| intersectionOf ·)
  | .literal members => some (.literal members)
  | .parenthesized inner => normal? inner
  | .other _ => none

/-- The normal forms of several expressions. -/
def normalAll? : List TypeExpr → Option (List TypeExpr)
  | [] => some []
  | e :: es => (normal? e).bind fun f => (normalAll? es).bind fun fs => some (f :: fs)

end

end Normal

/-- `null` or `undefined`. -/
def isNullish : TypeExpr → Bool
  | .keyword name => name == "null" || name == "undefined"
  | _ => false

/-- A form with `null` and `undefined` taken out; when nothing is left, `never`. -/
def nonNullable (never : TypeExpr) : TypeExpr → TypeExpr
  | .union members =>
    match members.filter (!·.isNullish) with
    | [] => never
    | kept => unionOf kept
  | e => if e.isNullish then never else e

end TypeExpr

theorem map_distinctBy {α β : Type} [DecidableEq α] [DecidableEq β] {f : α → β} {as : List α}
    (h : ∀ a ∈ as, ∀ b ∈ as, f a = f b → a = b) :
    (distinctBy id as).map f = distinctBy id (as.map f) := by
  induction as with
  | nil => rfl
  | cons a as ih =>
    have ih := ih fun b hb c hc => h b (List.mem_cons_of_mem a hb) c (List.mem_cons_of_mem a hc)
    rw [distinctBy, List.map_cons, List.map_cons, distinctBy, ← ih, List.filter_map]
    refine congrArg (f a :: List.map f ·) (List.filter_congr fun b hb => ?_)
    have hb := mem_of_mem_distinctBy id hb
    have heq : f b = f a ↔ b = a :=
      ⟨h b (List.mem_cons_of_mem a hb) a List.mem_cons_self, congrArg f⟩
    simp [heq]

namespace TypeTable

variable {t u v : TypeTable}

/-! ### Types and forms -/

/-- A type of the table that stands for an expression. -/
structure HasForm (t : TypeTable) (id : TypeId) (f : TypeExpr) : Prop where
  /-- The type is in the table. -/
  lt : id < t.entries.length
  /-- It stands for the expression. -/
  form : t.form id = f

/-- Types of the table that stand for expressions, in order. -/
structure HasForms (t : TypeTable) (ids : List TypeId) (fs : List TypeExpr) : Prop where
  /-- The types are in the table. -/
  lt : ∀ id ∈ ids, id < t.entries.length
  /-- They stand for the expressions. -/
  forms : ids.map t.form = fs

theorem HasForm.extend {id : TypeId} {f : TypeExpr} (h : t.HasForm id f) (ht : t.WellFormed)
    (hu : t.Extends u) : u.HasForm id f :=
  ⟨Nat.lt_of_lt_of_le h.lt hu.length_le, by rw [hu.form_eq ht h.lt, h.form]⟩

theorem HasForms.nil : t.HasForms [] [] := ⟨by simp, rfl⟩

theorem HasForms.cons {id : TypeId} {f : TypeExpr} {ids : List TypeId} {fs : List TypeExpr}
    (h : t.HasForm id f) (hs : t.HasForms ids fs) : t.HasForms (id :: ids) (f :: fs) :=
  ⟨List.forall_mem_cons.2 ⟨h.lt, hs.lt⟩, by rw [List.map_cons, h.form, hs.forms]⟩

theorem WellFormed.hasForm_of_entry (h : t.WellFormed) {id : TypeId} {e : Entry}
    (he : t.entryAt? id = some e) : t.HasForm id (e.expr t.form) :=
  ⟨lt_of_entryAt? he, h.form_of_entry he⟩

/-- A name stands for a type that has its form. -/
theorem lookup?_hasForm (name : String) : Option.Rel t.HasForm (t.lookup? name) (t.nameForm? name) := by
  rw [nameForm?]
  cases hl : t.lookup? name with
  | none => exact .none
  | some id => exact .some ⟨lookup?_lt hl, rfl⟩

theorem WellFormed.lookup?_never (h : t.WellFormed) : ∃ id, t.lookup? "never" = some id :=
  h.exists_lookup? (by decide)

/-- What `never` stands for. -/
def neverForm (t : TypeTable) : TypeExpr := t.form t.never

theorem WellFormed.never_hasForm (h : t.WellFormed) : t.HasForm t.never t.neverForm := by
  obtain ⟨id, hid⟩ := h.lookup?_never
  exact ⟨by rw [never, hid]; exact lookup?_lt hid, rfl⟩

theorem Extends.neverForm_eq (h : t.Extends u) (ht : t.WellFormed) : u.neverForm = t.neverForm := by
  rw [neverForm, neverForm, h.never_eq, h.form_eq ht ht.never_hasForm.lt]

theorem WellFormed.isNullish_form (h : t.WellFormed) (id : TypeId) :
    (t.form id).isNullish = t.isNullish id := by
  cases he : t.entryAt? id with
  | none => rw [form, formWithin, isNullish, he]; rfl
  | some e =>
    rw [h.form_of_entry he, isNullish, he]
    cases e <;> rfl

theorem WellFormed.unionMembers_form (h : t.WellFormed) (id : TypeId) :
    (t.form id).unionMembers = (t.unionMembers id).map t.form := by
  cases he : t.entryAt? id with
  | none => rw [form, formWithin, unionMembers, he, List.map_singleton, form, formWithin, he]; rfl
  | some e =>
    rw [unionMembers, he]
    cases e <;> simp [h.form_of_entry he, Entry.expr, TypeExpr.unionMembers]

theorem WellFormed.intersectionMembers_form (h : t.WellFormed) (id : TypeId) :
    (t.form id).intersectionMembers = (t.intersectionMembers id).map t.form := by
  cases he : t.entryAt? id with
  | none =>
    rw [form, formWithin, intersectionMembers, he, List.map_singleton, form, formWithin, he]; rfl
  | some e =>
    rw [intersectionMembers, he]
    cases e <;> simp [h.form_of_entry he, Entry.expr, TypeExpr.intersectionMembers]

theorem unionMembers_of_isUnion {id : TypeId} (h : t.isUnion id = false) :
    t.unionMembers id = [id] := by
  rw [unionMembers]
  split
  · rename_i members he
    rw [isUnion_iff.2 ⟨members, he⟩] at h
    cases h
  · rfl

theorem intersectionMembers_of_isIntersection {id : TypeId} (h : t.isIntersection id = false) :
    t.intersectionMembers id = [id] := by
  rw [intersectionMembers]
  split
  · rename_i members he
    rw [isIntersection_iff.2 ⟨members, he⟩] at h
    cases h
  · rfl

/-- The types a union is made from are in the table, and none is a union. -/
theorem WellFormed.mem_unionMembers (h : t.WellFormed) {id m : TypeId} (hid : id < t.entries.length)
    (hm : m ∈ t.unionMembers id) : m < t.entries.length ∧ t.isUnion m = false := by
  rw [unionMembers] at hm
  split at hm
  · rename_i members he
    exact ⟨Nat.lt_trans (h.parts_lt he m hm) hid, (h.flat he).2.2 m hm⟩
  · rename_i hne
    rw [List.mem_singleton] at hm
    subst hm
    refine ⟨hid, ?_⟩
    rw [← Bool.not_eq_true, isUnion_iff]
    rintro ⟨members, he⟩
    exact hne members he

theorem WellFormed.mem_intersectionMembers (h : t.WellFormed) {id m : TypeId}
    (hid : id < t.entries.length) (hm : m ∈ t.intersectionMembers id) :
    m < t.entries.length ∧ t.isIntersection m = false := by
  rw [intersectionMembers] at hm
  split at hm
  · rename_i members he
    exact ⟨Nat.lt_trans (h.parts_lt he m hm) hid, (h.flat he).2.2 m hm⟩
  · rename_i hne
    rw [List.mem_singleton] at hm
    subst hm
    refine ⟨hid, ?_⟩
    rw [← Bool.not_eq_true, isIntersection_iff]
    rintro ⟨members, he⟩
    exact hne members he

/-! ### Computations on well-formed tables -/

/-- Run on `t`, the computation leaves a well-formed extension of it, and its result is as it should
be there. -/
structure Ensures {α : Type} (t : TypeTable) (m : Entering α) (P : α → TypeTable → Prop) : Prop where
  /-- The table grows. -/
  extend : t.Extends (m.run t).2
  /-- It stays well formed. -/
  wellFormed : (m.run t).2.WellFormed
  /-- The result. -/
  result : P (m.run t).1 (m.run t).2

variable {α β γ δ : Type}

theorem Ensures.of_run {m : Entering α} {P : α → TypeTable → Prop} {a : α} (h : m.run t = (a, u))
    (hu : t.Extends u) (hwf : u.WellFormed) (ha : P a u) : Ensures t m P :=
  ⟨by rw [h]; exact hu, by rw [h]; exact hwf, by rw [h]; exact ha⟩

theorem Ensures.pure (ht : t.WellFormed) {P : α → TypeTable → Prop} {a : α} (h : P a t) :
    Ensures t (Pure.pure a) P :=
  ⟨Extends.refl t, ht, h⟩

theorem Ensures.bind {m : Entering α} {f : α → Entering β} {P : α → TypeTable → Prop}
    {Q : β → TypeTable → Prop} (hm : Ensures t m P)
    (hf : ∀ a u, t.Extends u → u.WellFormed → P a u → Ensures u (f a) Q) : Ensures t (m >>= f) Q :=
  have h := hf _ _ hm.extend hm.wellFormed hm.result
  ⟨hm.extend.trans h.extend, h.wellFormed, h.result⟩

theorem run_get_bind (f : TypeTable → Entering β) :
    (MonadState.get >>= f : Entering β).run t = (f t).run t := rfl

theorem Ensures.get {f : TypeTable → Entering β} {Q : β → TypeTable → Prop}
    (hf : Ensures t (f t) Q) : Ensures t (MonadState.get >>= f) Q :=
  ⟨hf.extend, hf.wellFormed, hf.result⟩

/-- A computation comes to something just when a known value is there, and the two are related. -/
theorem Ensures.bind_option {m : Resolving α} {f : α → Resolving β} {x : Option γ}
    {g : γ → Option δ} {R : TypeTable → α → γ → Prop} {S : TypeTable → β → δ → Prop}
    (hm : Ensures t m.run fun r u => Option.Rel (R u) r x)
    (hf : ∀ a c u, t.Extends u → u.WellFormed → R u a c →
      Ensures u (f a).run fun r v => Option.Rel (S v) r (g c)) :
    Ensures t (m >>= f).run fun r u => Option.Rel (S u) r (x.bind g) := by
  rw [OptionT.run_bind]
  refine hm.bind fun r u hu hwf hr => ?_
  cases hr with
  | none => exact Ensures.pure hwf .none
  | some hr => exact hf _ _ u hu hwf hr

theorem Ensures.lift {m : Entering α} {c : γ} {R : TypeTable → α → γ → Prop}
    (hm : Ensures t m fun a u => R u a c) :
    Ensures t (liftM m : Resolving α).run fun r u => Option.Rel (R u) r (some c) :=
  hm.bind fun _ _ _ hwf h => Ensures.pure hwf (.some h)

/-! ### Entering types -/

theorem run_intern_old {e : Entry} {id : TypeId} (h : t.entries.findIdx? (· == e) = some id) :
    (intern e).run t = (id, t) := by
  simp only [StateT.run, intern, h]

theorem run_intern_new {e : Entry} (h : t.entries.findIdx? (· == e) = none) :
    (intern e).run t = (t.entries.length, { t with entries := t.entries ++ [e] }) := by
  simp only [StateT.run, intern, h]

/-- Entering a type that fits gives a type with that entry. -/
theorem ensures_intern (ht : t.WellFormed) {e : Entry} (hnamed : e.isNamed = false)
    (hparts : ∀ m ∈ e.parts, m < t.entries.length) (hflat : t.Flat e) :
    Ensures t (intern e) fun id u => u.HasForm id (e.expr t.form) := by
  have hext := grows_intern hnamed t
  cases hfind : t.entries.findIdx? (· == e) with
  | some id =>
    obtain ⟨hlt, hp, -⟩ := List.findIdx?_eq_some_iff_getElem.1 hfind
    have he : t.entryAt? id = some e := by
      rw [entryAt?, List.getElem?_eq_getElem hlt, eq_of_beq hp]
    exact .of_run (run_intern_old hfind) (Extends.refl t) ht (ht.hasForm_of_entry he)
  | none =>
    rw [run_intern_new hfind] at hext
    have hnew : ∀ id, t.entryAt? id ≠ some e := fun id hid => by
      have := List.findIdx?_eq_none_iff.1 hfind e (List.mem_of_getElem? hid)
      simp at this
    have hobject : ∀ d, e = .object d → ∀ id d', t.entryAt? id = some (.object d') → d'.name ≠ d.name :=
      fun d hd => by rw [hd] at hnamed; cases hnamed
    have hwf := ht.append hparts hflat hnew hobject
    have hform := hwf.hasForm_of_entry (entryAt?_append_length (t := t) (e := e))
    rw [Entry.expr_congr fun m hm => hext.form_eq ht (hparts m hm)] at hform
    exact .of_run (run_intern_new hfind) hext hwf hform

/-- Members combined stand for their forms combined: each counts once, and a single one is left as
it is. -/
theorem ensures_combine (ht : t.WellFormed) {entry : List TypeId → Entry}
    {combination : List TypeExpr → TypeExpr} {ms : List TypeId}
    (hnamed : ∀ ms, (entry ms).isNamed = false) (hparts : ∀ ms, (entry ms).parts = ms)
    (hexpr : ∀ ms, (entry ms).expr t.form = combination (ms.map t.form))
    (hlt : ∀ m ∈ ms, m < t.entries.length)
    (hflat : ∀ ns : List TypeId, ns.Nodup → ns.length ≠ 1 → (∀ n ∈ ns, n ∈ ms) →
      t.Flat (entry ns)) :
    Ensures t (combine entry (distinctBy id ms)) fun m u =>
      u.HasForm m (TypeExpr.combined combination (distinctBy id (ms.map t.form))) := by
  have hinj : ∀ a ∈ ms, ∀ b ∈ ms, t.form a = t.form b → a = b := fun a ha b hb =>
    ht.form_inj (hlt a ha) (hlt b hb)
  have hnodup := nodup_map_distinctBy id ms
  have hmem : ∀ m ∈ distinctBy id ms, m ∈ ms := fun m hm => mem_of_mem_distinctBy id hm
  rw [List.map_id] at hnodup
  rw [← map_distinctBy hinj]
  generalize distinctBy id ms = ns at hnodup hmem ⊢
  have hintern : ns.length ≠ 1 →
      Ensures t (intern (entry ns)) fun id u => u.HasForm id (combination (ns.map t.form)) := by
    intro hlength
    rw [← hexpr ns]
    refine ensures_intern ht (hnamed ns) ?_ (hflat ns hnodup hlength hmem)
    rw [hparts]
    exact fun m hm => hlt m (hmem m hm)
  rcases ns with _ | ⟨m, _ | ⟨n, ns⟩⟩
  · exact hintern (by simp)
  · exact Ensures.pure ht ⟨hlt m (hmem m List.mem_cons_self), rfl⟩
  · exact hintern (by simp)

theorem ensures_unionOf (ht : t.WellFormed) {ids : List TypeId} {fs : List TypeExpr}
    (h : t.HasForms ids fs) :
    Ensures t (unionOf ids) fun id u => u.HasForm id (TypeExpr.unionOf fs) := by
  have hmem : ∀ m ∈ ids.flatMap t.unionMembers, m < t.entries.length ∧ t.isUnion m = false := by
    intro m hm
    obtain ⟨id, hid, hm⟩ := List.mem_flatMap.1 hm
    exact ht.mem_unionMembers (h.lt id hid) hm
  have hforms : (ids.flatMap t.unionMembers).map t.form = fs.flatMap TypeExpr.unionMembers := by
    rw [← h.forms, List.map_flatMap, List.flatMap_map]
    simp only [ht.unionMembers_form]
  refine Ensures.get ?_
  rw [TypeExpr.unionOf, ← hforms]
  exact ensures_combine ht (fun _ => rfl) (fun _ => rfl) (fun _ => rfl) (fun m hm => (hmem m hm).1)
    fun _ hnodup hlength hsub => ⟨hnodup, hlength, fun n hn => (hmem n (hsub n hn)).2⟩

theorem ensures_intersectionOf (ht : t.WellFormed) {ids : List TypeId} {fs : List TypeExpr}
    (h : t.HasForms ids fs) :
    Ensures t (intersectionOf ids) fun id u => u.HasForm id (TypeExpr.intersectionOf fs) := by
  have hmem : ∀ m ∈ ids.flatMap t.intersectionMembers,
      m < t.entries.length ∧ t.isIntersection m = false := by
    intro m hm
    obtain ⟨id, hid, hm⟩ := List.mem_flatMap.1 hm
    exact ht.mem_intersectionMembers (h.lt id hid) hm
  have hforms : (ids.flatMap t.intersectionMembers).map t.form =
      fs.flatMap TypeExpr.intersectionMembers := by
    rw [← h.forms, List.map_flatMap, List.flatMap_map]
    simp only [ht.intersectionMembers_form]
  refine Ensures.get ?_
  rw [TypeExpr.intersectionOf, ← hforms]
  exact ensures_combine ht (fun _ => rfl) (fun _ => rfl) (fun _ => rfl) (fun m hm => (hmem m hm).1)
    fun _ hnodup hlength hsub => ⟨hnodup, hlength, fun n hn => (hmem n (hsub n hn)).2⟩

theorem ensures_resolveName (ht : t.WellFormed) (name : String) :
    Ensures t (resolveName name).run fun r u => Option.Rel u.HasForm r (t.nameForm? name) :=
  Ensures.get (Ensures.pure ht (lookup?_hasForm name))

theorem ensures_array {m : Resolving TypeId} {x : Option TypeExpr}
    (h : Ensures t m.run fun r u => Option.Rel u.HasForm r x) :
    Ensures t (do intern (.array (← m)) : Resolving TypeId).run fun r u =>
      Option.Rel u.HasForm r (x.bind (some <| .array ·)) := by
  refine h.bind_option (g := (some <| .array ·)) fun id f u _ hu hid => Ensures.lift (R := HasForm) ?_
  have := ensures_intern hu (e := .array id) rfl (by simpa [Entry.parts] using hid.lt) trivial
  rwa [Entry.expr, hid.form] at this

mutual

/-- An expression resolves to a type that stands for its normal form, or to none when it has no
normal form. -/
theorem ensures_resolve : ∀ (e : TypeExpr) {t : TypeTable}, t.WellFormed →
    Ensures t (resolve e).run fun r u => Option.Rel u.HasForm r (e.normal? t.nameForm?)
  | .keyword name, _, ht => ensures_resolveName ht name
  | .reference name [], _, ht => ensures_resolveName ht name
  | .reference name [e], _, ht => by
    rw [resolve, TypeExpr.normal?]
    split
    · exact ensures_array (ensures_resolve e ht)
    · exact ensures_resolveName ht name
  | .reference name (_ :: _ :: _), _, ht => ensures_resolveName ht name
  | .array e, _, ht => by
    rw [resolve, TypeExpr.normal?]
    exact ensures_array (ensures_resolve e ht)
  | .union members, t, ht => by
    rw [resolve, TypeExpr.normal?]
    exact (ensures_resolveAll members ht).bind_option (g := (some <| TypeExpr.unionOf ·))
      fun ids fs u _ hu h => Ensures.lift (ensures_unionOf hu h)
  | .intersection members, t, ht => by
    rw [resolve, TypeExpr.normal?]
    exact (ensures_resolveAll members ht).bind_option (g := (some <| TypeExpr.intersectionOf ·))
      fun ids fs u _ hu h => Ensures.lift (ensures_intersectionOf hu h)
  | .literal members, _, ht => by
    rw [resolve, TypeExpr.normal?]
    exact Ensures.lift (ensures_intern ht rfl (by simp [Entry.parts]) trivial)
  | .parenthesized inner, _, ht => by
    rw [resolve, TypeExpr.normal?]
    exact ensures_resolve inner ht
  | .other _, _, ht => Ensures.pure ht .none

theorem ensures_resolveAll : ∀ (es : List TypeExpr) {t : TypeTable}, t.WellFormed →
    Ensures t (resolveAll es).run fun r u =>
      Option.Rel u.HasForms r (TypeExpr.normalAll? t.nameForm? es)
  | [], _, ht => Ensures.pure ht (.some HasForms.nil)
  | e :: es, t, ht => by
    rw [resolveAll, TypeExpr.normalAll?]
    refine (ensures_resolve e ht).bind_option fun id f u htu hu hid => ?_
    have hes := ensures_resolveAll es hu
    rw [htu.nameForm?_eq ht] at hes
    refine hes.bind_option (g := fun fs => some (f :: fs)) fun ids fs v huv hv hids => ?_
    exact Ensures.pure hv (.some (HasForms.cons (hid.extend hu huv) hids))

end

/-! ### Null -/

/-- Taking `null` and `undefined` out of a type takes them out of its form. -/
theorem ensures_nonNullable (ht : t.WellFormed) {id : TypeId} {f : TypeExpr} (h : t.HasForm id f) :
    Ensures t (nonNullable id) fun r u => u.HasForm r (TypeExpr.nonNullable t.neverForm f) := by
  obtain ⟨e, he⟩ := exists_entryAt? h.lt
  have hform : f = e.expr t.form := by rw [← h.form, ht.form_of_entry he]
  refine Ensures.get ?_
  rw [he]
  cases e with
  | union members =>
    have hfilter : (members.map t.form).filter (!·.isNullish) =
        (members.filter (!t.isNullish ·)).map t.form := by
      rw [List.filter_map]
      exact congrArg _ (List.filter_congr fun m _ => by simp [ht.isNullish_form])
    have hlt : ∀ m ∈ members.filter (!t.isNullish ·), m < t.entries.length := fun m hm =>
      Nat.lt_trans (ht.parts_lt he m (List.mem_filter.1 hm |>.1)) h.lt
    rw [hform, Entry.expr, TypeExpr.nonNullable, hfilter]
    simp only
    generalize members.filter (!t.isNullish ·) = kept at hlt
    cases kept with
    | nil => exact Ensures.pure ht ht.never_hasForm
    | cons m kept => exact ensures_unionOf ht ⟨hlt, rfl⟩
  | primitive | object | literal | array | intersection =>
    have hnull : TypeExpr.nonNullable t.neverForm f = if t.isNullish id then t.neverForm else f := by
      rw [← ht.isNullish_form id, h.form, hform]
      rfl
    rw [hnull]
    refine Ensures.pure ht ?_
    split
    · exact ht.never_hasForm
    · exact h

/-! ### Fields -/

/-- What the declared type of a field comes to. -/
def fieldType? (t : TypeTable) (timestamp : String) (declared : TypeExpr) : Option FieldType :=
  ((classify timestamp declared).run.run t).1

/-- What the type of a field stands for, arrays unwrapped and `null` taken out. -/
def fieldForm? (t : TypeTable) (declared : TypeExpr) : Option TypeExpr :=
  (declared.unwrapArrays.normal? t.nameForm?).bind (some <| TypeExpr.nonNullable t.neverForm ·)

/-- How a form is read as the type of a field: a class or an interface not named like the timestamp
type is entered, anything else is a leaf. -/
inductive ReadAs (t : TypeTable) (timestamp : String) : FieldType → TypeExpr → Prop
  /-- A class or an interface. -/
  | structured {id : TypeId} {d : TypeDeclaration} (he : t.entryAt? id = some (.object d))
    (hne : d.name ≠ timestamp) : ReadAs t timestamp (.structured id) (.reference d.name [])
  /-- A leaf. -/
  | leaf {f : TypeExpr} (h : f.grouped.text = timestamp ∨ ∀ name, f ≠ .reference name []) :
    ReadAs t timestamp (.leaf f.grouped.text) f

/-- A type of the table is read as its structure and its spelling say. -/
theorem WellFormed.readAs (ht : t.WellFormed) {timestamp : String} {id : TypeId} {f : TypeExpr}
    (h : t.HasForm id f) : t.ReadAs timestamp (if t.typeText id ≠ timestamp && t.isStructured id then
      .structured id else .leaf (t.typeText id)) f := by
  obtain ⟨e, he⟩ := exists_entryAt? h.lt
  have hform : f = e.expr t.form := by rw [← h.form, ht.form_of_entry he]
  have htext : t.typeText id = f.grouped.text := by rw [ht.typeText_eq, h.form]
  have hstructured : t.isStructured id = e.isObject := by rw [isStructured, he]; rfl
  have hread : f.grouped.text = timestamp ∨ (∀ name, f ≠ .reference name []) →
      t.ReadAs timestamp (.leaf f.grouped.text) f := .leaf
  rw [htext, hstructured]
  cases e with
  | object d =>
    have hname : f.grouped.text = d.name := by rw [hform]; rfl
    by_cases hne : d.name = timestamp
    · simpa [hname, hne, Entry.isObject] using hread (.inl (hname.trans hne))
    · rw [hname, hform]
      simpa [hne, Entry.isObject, Entry.expr] using ReadAs.structured he hne
  | primitive | literal | array | union | intersection =>
    have hleaf : ∀ name, f ≠ .reference name [] := by rw [hform]; simp [Entry.expr]
    simpa [Entry.isObject] using hread (.inr hleaf)

theorem ensures_classify (ht : t.WellFormed) (timestamp : String) (declared : TypeExpr) :
    Ensures t (classify timestamp declared).run fun r u =>
      Option.Rel (u.ReadAs timestamp) r (t.fieldForm? declared) := by
  refine (ensures_resolve declared.unwrapArrays ht).bind_option fun id f u htu hu hid => ?_
  have hnull := ensures_nonNullable hu hid
  rw [htu.neverForm_eq ht] at hnull
  refine (Ensures.lift hnull).bind_option (g := some) fun id' f' v huv hv hid' => ?_
  exact ⟨Extends.refl v, hv, Option.Rel.some (hv.readAs hid')⟩

/-- What a field comes to is how the form of its type is read. -/
theorem WellFormed.fieldType?_readAs (ht : t.WellFormed) (timestamp : String) (declared : TypeExpr) :
    Option.Rel (t.ReadAs timestamp) (t.fieldType? timestamp declared) (t.fieldForm? declared) := by
  have h := ensures_classify ht timestamp declared
  have hback : ∀ a f, ReadAs ((classify timestamp declared).run.run t).2 timestamp a f →
      t.ReadAs timestamp a f := by
    intro a f ha
    cases ha with
    | structured he hne => exact .structured (h.extend.entryAt?_of_named he rfl) hne
    | leaf h => exact .leaf h
  have hr := h.result
  rw [fieldType?]
  generalize ((classify timestamp declared).run.run t).1 = r at hr ⊢
  generalize t.fieldForm? declared = x at hr ⊢
  cases hr with
  | none => exact .none
  | some hr => exact .some (hback _ _ hr)

end TypeTable

end DateFields
