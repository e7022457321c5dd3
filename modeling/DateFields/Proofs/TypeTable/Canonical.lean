import DateFields.Proofs.TypeTable.Declarations

/-!
# One type for every normal form

Expressions resolve to the same type just when they have the same normal form, at whatever times
they are resolved, as long as no primitive type has been given another meaning in between.

* `TypeExpr.normalForm?` — the normal form of an expression, names left as they are;
* `TypeExpr.normal?_map` — a change of names that keeps apart what was apart carries over from
  expressions to their normal forms;
* `Keeps` — what a table keeps from an earlier one: its types, and what its names stand for;
* `typeOf?_canonical` — the type of an expression.
-/

namespace DateFields

namespace TypeExpr

/-! ### Normal forms and names -/

/-- The normal form of an expression, every name standing for itself. -/
def normalForm? (e : TypeExpr) : Option TypeExpr := e.normal? fun name => some (.keyword name)

/-- The change of expressions only concerns names. -/
structure ChangesNames (φ : TypeExpr → TypeExpr) : Prop where
  /-- Different expressions stay different. -/
  injective : Function.Injective φ
  /-- Arrays stay arrays. -/
  array : ∀ e, φ (.array e) = .array (φ e)
  /-- Unions stay unions. -/
  union : ∀ es, φ (.union es) = .union (es.map φ)
  /-- Intersections stay intersections. -/
  intersection : ∀ es, φ (.intersection es) = .intersection (es.map φ)
  /-- Inline object types stay as they are. -/
  literal : ∀ members, φ (.literal members) = .literal members
  /-- Nothing else becomes a union. -/
  unionMembers : ∀ e, (φ e).unionMembers = e.unionMembers.map φ
  /-- Nothing else becomes an intersection. -/
  intersectionMembers : ∀ e, (φ e).intersectionMembers = e.intersectionMembers.map φ

variable {φ : TypeExpr → TypeExpr}

theorem changesNames_id : ChangesNames id :=
  ⟨Function.injective_id, fun _ => rfl, fun es => by simp, fun es => by simp, fun _ => rfl,
    fun e => by simp, fun e => by simp⟩

theorem map_combined {combination : List TypeExpr → TypeExpr}
    (h : ∀ es, φ (combination es) = combination (es.map φ)) (es : List TypeExpr) :
    φ (combined combination es) = combined combination (es.map φ) := by
  match es with
  | [] => exact h []
  | [_] => rfl
  | _ :: _ :: _ => exact h _

theorem ChangesNames.unionOf (hφ : ChangesNames φ) (es : List TypeExpr) :
    φ (unionOf es) = TypeExpr.unionOf (es.map φ) := by
  rw [TypeExpr.unionOf, TypeExpr.unionOf, map_combined hφ.union,
    map_distinctBy fun a _ b _ h => hφ.injective h, List.map_flatMap, List.flatMap_map]
  simp only [hφ.unionMembers]

theorem ChangesNames.intersectionOf (hφ : ChangesNames φ) (es : List TypeExpr) :
    φ (intersectionOf es) = TypeExpr.intersectionOf (es.map φ) := by
  rw [TypeExpr.intersectionOf, TypeExpr.intersectionOf, map_combined hφ.intersection,
    map_distinctBy fun a _ b _ h => hφ.injective h, List.map_flatMap, List.flatMap_map]
  simp only [hφ.intersectionMembers]

theorem ChangesNames.bind_array (hφ : ChangesNames φ) {x y : Option TypeExpr} {f : TypeExpr}
    (h : x.bind (some <| .array ·) = some f) (hxy : ∀ f, x = some f → ∃ g, y = some g ∧ φ g = f) :
    ∃ g, y.bind (some <| .array ·) = some g ∧ φ g = f := by
  obtain ⟨element, hx, hf⟩ := Option.bind_eq_some_iff.1 h
  cases hf
  obtain ⟨g, rfl, rfl⟩ := hxy element hx
  exact ⟨_, rfl, hφ.array g⟩

section Map

variable {names names' : String → Option TypeExpr}

mutual

/-- Names that stand for the same up to a change give normal forms that are the same up to it. -/
theorem normal?_map (hφ : ChangesNames φ)
    (hnames : ∀ name f, names name = some f → ∃ g, names' name = some g ∧ φ g = f) :
    ∀ (e : TypeExpr) {f : TypeExpr}, e.normal? names = some f →
      ∃ g, e.normal? names' = some g ∧ φ g = f
  | .keyword name, f, h => by
    rw [normal?] at h ⊢
    exact hnames name f h
  | .reference name [], f, h => by
    rw [normal?] at h ⊢
    · exact hnames name f h
    all_goals simp
  | .reference name [e], f, h => by
    rw [normal?] at h ⊢
    split at h
    · rename_i harray
      rw [if_pos harray]
      exact hφ.bind_array h fun _ => normal?_map hφ hnames e
    · rename_i harray
      rw [if_neg harray]
      exact hnames name f h
  | .reference name (_ :: _ :: _), f, h => by
    rw [normal?] at h ⊢
    · exact hnames name f h
    all_goals simp
  | .array e, f, h => by
    rw [normal?] at h ⊢
    exact hφ.bind_array h fun _ => normal?_map hφ hnames e
  | .union members, f, h => by
    rw [normal?] at h ⊢
    obtain ⟨fs, hfs, hf⟩ := Option.bind_eq_some_iff.1 h
    cases hf
    obtain ⟨gs, hgs, rfl⟩ := normalAll?_map hφ hnames members hfs
    rw [hgs]
    exact ⟨_, rfl, hφ.unionOf gs⟩
  | .intersection members, f, h => by
    rw [normal?] at h ⊢
    obtain ⟨fs, hfs, hf⟩ := Option.bind_eq_some_iff.1 h
    cases hf
    obtain ⟨gs, hgs, rfl⟩ := normalAll?_map hφ hnames members hfs
    rw [hgs]
    exact ⟨_, rfl, hφ.intersectionOf gs⟩
  | .literal members, f, h => by
    rw [normal?] at h ⊢
    cases h
    exact ⟨_, rfl, hφ.literal members⟩
  | .parenthesized inner, f, h => by
    rw [normal?] at h ⊢
    exact normal?_map hφ hnames inner h
  | .other text, f, h => by
    rw [normal?] at h
    cases h

theorem normalAll?_map (hφ : ChangesNames φ)
    (hnames : ∀ name f, names name = some f → ∃ g, names' name = some g ∧ φ g = f) :
    ∀ (es : List TypeExpr) {fs : List TypeExpr}, normalAll? names es = some fs →
      ∃ gs, normalAll? names' es = some gs ∧ gs.map φ = fs
  | [], fs, h => by
    rw [normalAll?] at h ⊢
    cases h
    exact ⟨[], rfl, rfl⟩
  | e :: es, fs, h => by
    rw [normalAll?] at h ⊢
    obtain ⟨f, hf, hrest⟩ := Option.bind_eq_some_iff.1 h
    obtain ⟨fs', hfs, hcons⟩ := Option.bind_eq_some_iff.1 hrest
    cases hcons
    obtain ⟨g, hg, rfl⟩ := normal?_map hφ hnames e hf
    obtain ⟨gs, hgs, rfl⟩ := normalAll?_map hφ hnames es hfs
    rw [hg, Option.bind_some, hgs]
    exact ⟨g :: gs, rfl, rfl⟩

end

end Map

/-! ### Names of a table -/

section Names

variable (names : String → Option TypeExpr)

mutual

/-- An expression in normal form with every name replaced by what it stands for.  Parentheses tell
what is no such expression from what names stand for. -/
def respell : TypeExpr → TypeExpr
  | .keyword name => (names name).getD (.parenthesized (.keyword name))
  | .array e => .array (respell e)
  | .union es => .union (respellAll es)
  | .intersection es => .intersection (respellAll es)
  | .literal members => .literal members
  | e => .parenthesized e

/-- Every expression with names replaced. -/
def respellAll : List TypeExpr → List TypeExpr
  | [] => []
  | e :: es => respell e :: respellAll es

end

theorem respellAll_eq (es : List TypeExpr) : respellAll names es = es.map (respell names) := by
  induction es with
  | nil => rfl
  | cons e es ih => rw [respellAll, ih, List.map_cons]

end Names

mutual

/-- The expression before its names were replaced. -/
def unspell : TypeExpr → TypeExpr
  | .reference name _ => .keyword name
  | .array e => .array (unspell e)
  | .union es => .union (unspellAll es)
  | .intersection es => .intersection (unspellAll es)
  | .parenthesized e => e
  | e => e

/-- Every expression before its names were replaced. -/
def unspellAll : List TypeExpr → List TypeExpr
  | [] => []
  | e :: es => unspell e :: unspellAll es

end

/-- A name stands for the primitive type or for the class or the interface of that name. -/
def Plain (names : String → Option TypeExpr) : Prop :=
  ∀ name f, names name = some f → f = .keyword name ∨ f = .reference name []

theorem Plain.respell_keyword {names : String → Option TypeExpr} (hplain : Plain names)
    (name : String) : respell names (.keyword name) = .keyword name ∨
      respell names (.keyword name) = .reference name [] ∨
      respell names (.keyword name) = .parenthesized (.keyword name) := by
  rw [respell]
  cases hname : names name with
  | none => exact .inr (.inr rfl)
  | some f =>
    rcases hplain name f hname with rfl | rfl
    · exact .inl rfl
    · exact .inr (.inl rfl)

mutual

theorem Plain.unspell_respell {names : String → Option TypeExpr} (hplain : Plain names) :
    ∀ e : TypeExpr, (respell names e).unspell = e
  | .keyword name => by
    rcases hplain.respell_keyword name with h | h | h <;> rw [h] <;> rfl
  | .array e => by rw [respell, unspell, hplain.unspell_respell e]
  | .union es => by rw [respell, unspell, hplain.unspellAll_respellAll es]
  | .intersection es => by rw [respell, unspell, hplain.unspellAll_respellAll es]
  | .literal _ => rfl
  | .reference _ _ => rfl
  | .parenthesized _ => rfl
  | .other _ => rfl

theorem Plain.unspellAll_respellAll {names : String → Option TypeExpr} (hplain : Plain names) :
    ∀ es : List TypeExpr, unspellAll (respellAll names es) = es
  | [] => rfl
  | e :: es => by
    rw [respellAll, unspellAll, hplain.unspell_respell e, hplain.unspellAll_respellAll es]

end

section Plain

variable {names : String → Option TypeExpr} (hplain : Plain names)

include hplain

/-- Replacing names keeps different expressions different. -/
theorem Plain.changesNames : ChangesNames (respell names) := by
  refine ⟨(Function.LeftInverse.injective hplain.unspell_respell), fun e => by rw [respell],
    fun es => by rw [respell, respellAll_eq], fun es => by rw [respell, respellAll_eq],
    fun _ => rfl, fun e => ?_, fun e => ?_⟩
  · cases e with
    | keyword name => rcases hplain.respell_keyword name with h | h | h <;> simp [unionMembers, h]
    | union es => simp [respell, unionMembers, respellAll_eq]
    | _ => rfl
  · cases e with
    | keyword name =>
      rcases hplain.respell_keyword name with h | h | h <;> simp [intersectionMembers, h]
    | intersection es => simp [respell, intersectionMembers, respellAll_eq]
    | _ => rfl

/-- A normal form is the one with plain names, with every name replaced by what it stands for. -/
theorem Plain.exists_normalForm? {e f : TypeExpr} (h : e.normal? names = some f) :
    ∃ g, e.normalForm? = some g ∧ respell names g = f := by
  refine normal?_map hplain.changesNames (fun name f hname => ⟨.keyword name, rfl, ?_⟩) e h
  rw [respell, hname]
  rfl

/-- Expressions that have normal forms with names replaced have the same one just when they have the
same one without. -/
theorem Plain.normal?_eq_iff {e e' f f' : TypeExpr} (h : e.normal? names = some f)
    (h' : e'.normal? names = some f') : f = f' ↔ e.normalForm? = e'.normalForm? := by
  obtain ⟨g, hg, rfl⟩ := hplain.exists_normalForm? h
  obtain ⟨g', hg', rfl⟩ := hplain.exists_normalForm? h'
  rw [hg, hg', hplain.changesNames.injective.eq_iff, Option.some_inj]

end Plain

/-- An expression has the same normal form when more names are known. -/
theorem normal?_mono {names names' : String → Option TypeExpr}
    (h : ∀ name f, names name = some f → names' name = some f) {e f : TypeExpr}
    (he : e.normal? names = some f) : e.normal? names' = some f := by
  obtain ⟨g, hg, rfl⟩ :=
    normal?_map changesNames_id (fun name f hname => ⟨f, h name f hname, rfl⟩) e he
  exact hg

end TypeExpr

namespace TypeTable

variable {t u v : TypeTable}

theorem plain_nameForm? (ht : t.WellFormed) : TypeExpr.Plain t.nameForm? := by
  intro name f h
  obtain ⟨id, hid, rfl⟩ := Option.map_eq_some_iff.1 h
  rcases lookup?_some hid with ⟨d, hd, rfl⟩ | hp
  · exact .inr (ht.form_of_entry hd)
  · exact .inl (ht.form_of_entry hp)

/-! ### Later tables -/

/-- `u` has the types of `t`, and whatever a name stands for in `t` it stands for in `u`. -/
structure Keeps (t u : TypeTable) : Prop where
  /-- No type is lost. -/
  length_le : t.entries.length ≤ u.entries.length
  /-- A type stands for what it stood for. -/
  form : ∀ id, id < t.entries.length → u.form id = t.form id
  /-- A name that is known stands for what it stood for. -/
  names : ∀ name f, t.nameForm? name = some f → u.nameForm? name = some f

theorem Keeps.refl (t : TypeTable) : t.Keeps t := ⟨Nat.le_refl _, fun _ _ => rfl, fun _ _ h => h⟩

theorem Keeps.trans (h : t.Keeps u) (h' : u.Keeps v) : t.Keeps v :=
  ⟨Nat.le_trans h.length_le h'.length_le,
    fun id hid => (h'.form id (Nat.lt_of_lt_of_le hid h.length_le)).trans (h.form id hid),
    fun name f hname => h'.names name f (h.names name f hname)⟩

theorem Extends.keeps (h : t.Extends u) (ht : t.WellFormed) : t.Keeps u :=
  ⟨h.length_le, fun _ hid => h.form_eq ht hid, fun name f hname => by rw [h.nameForm?_eq ht, hname]⟩

/-- A declared class or interface spells like the one it extends. -/
theorem expr_entryAt?_declare (d : TypeDeclaration) {id : TypeId} {e : Entry}
    (he : t.entryAt? id = some e) :
    ∃ e', (t.declare d).2.entryAt? id = some e' ∧ ∀ f, e'.expr f = e.expr f := by
  rw [declare]
  cases hfind : t.entries.findIdx? (Entry.isObjectNamed d.name) with
  | none => exact ⟨e, entryAt?_append.2 (.inl he), fun _ => rfl⟩
  | some j =>
    obtain ⟨d₀, hj, -⟩ := findIdx?_isObjectNamed hfind
    by_cases hid : id = j
    · subst hid
      cases hj.symm.trans he
      exact ⟨_, (entryAt?_modify hj).2 (.inr ⟨rfl, rfl⟩), fun _ => rfl⟩
    · exact ⟨e, (entryAt?_modify hj).2 (.inl ⟨hid, he⟩), fun _ => rfl⟩

theorem length_le_declare (t : TypeTable) (d : TypeDeclaration) :
    t.entries.length ≤ (t.declare d).2.entries.length := by
  rw [declare]
  split <;> simp

/-- A declaration of a name that is not that of a primitive type changes the meaning of no type and
of no known name. -/
theorem keeps_declare (ht : t.WellFormed) (hk : t.KnownPrimitives) {d : TypeDeclaration}
    (hd : d.name ∉ primitiveNames) : t.Keeps (t.declare d).2 := by
  refine ⟨length_le_declare t d, fun id hid => ?_, fun name f hname => ?_⟩
  · exact ht.formWithin_congr (fun _ _ he => expr_entryAt?_declare d he) hid _
  · rw [nameForm?_eq ht hk] at hname
    rw [nameForm?_eq (ht.declare d) (hk.declare d), ht.declared?_declare]
    by_cases hdn : d.name = name
    · subst hdn
      rw [if_neg hd] at hname
      split at hname
      · rw [if_pos rfl, ← hname]
        rfl
      · cases hname
    · rw [if_neg hdn, hname]

theorem keeps_apply (ht : t.WellFormed) (hk : t.KnownPrimitives) {op : Operation}
    (hop : ∀ d, op = .declare d → d.name ∉ primitiveNames) : t.Keeps (op.apply t) := by
  cases op with
  | declare d => exact keeps_declare ht hk (hop d rfl)
  | bind b =>
    have hform : ∀ id, id < t.entries.length → (t.bind b).form id = t.form id := fun id hid =>
      ht.formWithin_congr (fun _ e he => ⟨e, by rwa [entryAt?, entries_bind], fun _ => rfl⟩) hid _
    refine ⟨Nat.le_of_eq (by rw [Operation.apply, entries_bind]), hform, fun name f hname => ?_⟩
    obtain ⟨id, hid, rfl⟩ := Option.map_eq_some_iff.1 hname
    rw [Operation.apply, nameForm?, lookup?, entries_bind, ← hform id (lookup?_lt hid)]
    exact congrArg (Option.map _) hid
  | resolve e => exact (grows_resolve e t).keeps ht
  | nonNullable id => exact (grows_nonNullable id t).keeps ht

theorem keeps_foldl {ops : List Operation} (ht : t.WellFormed) (hk : t.KnownPrimitives)
    (hops : ∀ d, .declare d ∈ ops → d.name ∉ primitiveNames) :
    t.Keeps (ops.foldl Operation.apply t) := by
  induction ops generalizing t with
  | nil => exact .refl t
  | cons op ops ih =>
    refine (keeps_apply ht hk fun d hd => hops d (hd ▸ List.mem_cons_self)).trans ?_
    exact ih (ht.apply op) (hk.apply op) fun d hd => hops d (List.mem_cons_of_mem op hd)

/-! ### Types of expressions -/

/-- The type that an expression resolves to. -/
def typeOf? (t : TypeTable) (e : TypeExpr) : Option TypeId := ((resolve e).run.run t).1

/-- An expression that resolves to a type has a normal form, and the type stands for it. -/
theorem WellFormed.hasForm_of_typeOf? (ht : t.WellFormed) {e : TypeExpr} {i : TypeId}
    (h : t.typeOf? e = some i) : ∃ f, e.normal? t.nameForm? = some f ∧
      ((resolve e).run.run t).2.HasForm i f := by
  have hrel := (ensures_resolve e ht).result
  rw [show ((resolve e).run.run t).1 = some i from h] at hrel
  generalize e.normal? t.nameForm? = x at hrel
  cases hrel with
  | some hform => exact ⟨_, rfl, hform⟩

/-- An expression that has a normal form resolves to a type. -/
theorem WellFormed.isSome_typeOf? (ht : t.WellFormed) (e : TypeExpr) :
    (t.typeOf? e).isSome = (e.normal? t.nameForm?).isSome := by
  have hrel := (ensures_resolve e ht).result
  rw [typeOf?]
  generalize e.normal? t.nameForm? = x at hrel
  generalize ((resolve e).run.run t).1 = r at hrel
  cases hrel <;> rfl

theorem Keeps.hasForm (h : t.Keeps u) {i : TypeId} {f : TypeExpr} (hi : t.HasForm i f) :
    u.HasForm i f :=
  ⟨Nat.lt_of_lt_of_le hi.lt h.length_le, (h.form i hi.lt).trans hi.form⟩

/-- Types are the same just when they stand for the same. -/
theorem HasForm.eq_iff (ht : t.WellFormed) {i j : TypeId} {f g : TypeExpr} (hi : t.HasForm i f)
    (hj : t.HasForm j g) : i = j ↔ f = g := by
  rw [← hi.form, ← hj.form]
  exact ⟨congrArg t.form, ht.form_inj hi.lt hj.lt⟩

/-- Expressions resolve to the same type just when they have the same normal form, also when other
types are asked for and declared in between, as long as no declaration has the name of a primitive
type; and an expression goes on to resolve to the type it has resolved to. -/
theorem typeOf?_canonical (before between : List Operation)
    (hbetween : ∀ d, .declare d ∈ between → d.name ∉ primitiveNames) (e e' : TypeExpr) :
    let t := ofOperations before
    let u := ofOperations (before ++ .resolve e :: between)
    (∀ i, t.typeOf? e = some i → u.typeOf? e = some i) ∧
    ∀ i j, t.typeOf? e = some i → u.typeOf? e' = some j →
      (i = j ↔ e.normalForm? = e'.normalForm?) := by
  intro t u
  have ht : t.WellFormed := wellFormed_ofOperations before
  have hu : u.WellFormed := wellFormed_ofOperations _
  have hkeeps : ((resolve e).run.run t).2.Keeps u := by
    have hfold : u = between.foldl Operation.apply ((resolve e).run.run t).2 := by
      show ofOperations _ = _
      rw [ofOperations, List.foldl_append, List.foldl_cons]
      rfl
    rw [hfold]
    exact keeps_foldl (ht.apply (.resolve e))
      ((knownPrimitives_ofOperations before).apply (.resolve e)) hbetween
  clear_value t u
  have hnames := (((grows_resolve e t).keeps ht).trans hkeeps).names
  -- both types are looked at in the table that the second question leaves
  have hforms : ∀ x i j, t.typeOf? e = some i → u.typeOf? x = some j →
      ∃ f g, e.normal? u.nameForm? = some f ∧ x.normal? u.nameForm? = some g ∧ (i = j ↔ f = g) := by
    intro x i j hi hj
    obtain ⟨f, hf, hi⟩ := ht.hasForm_of_typeOf? hi
    obtain ⟨g, hg, hj⟩ := hu.hasForm_of_typeOf? hj
    have hi := ((grows_resolve x u).keeps hu).hasForm (hkeeps.hasForm hi)
    exact ⟨f, g, TypeExpr.normal?_mono hnames hf, hg, hi.eq_iff (hu.apply (.resolve x)) hj⟩
  refine ⟨fun i hi => ?_, fun i j hi hj => ?_⟩
  · obtain ⟨f, hf, -⟩ := ht.hasForm_of_typeOf? hi
    have hsome : (u.typeOf? e).isSome := by
      rw [hu.isSome_typeOf?, TypeExpr.normal?_mono hnames hf]
      rfl
    obtain ⟨j, hj⟩ := Option.isSome_iff_exists.1 hsome
    obtain ⟨f, g, hf, hg, hij⟩ := hforms e i j hi hj
    rw [hij.2 (Option.some.inj (hf.symm.trans hg)), hj]
  · obtain ⟨f, g, hf, hg, hij⟩ := hforms e' i j hi hj
    exact hij.trans ((plain_nameForm? hu).normal?_eq_iff hf hg)

/-- `Date | (null | Date)` and `Date | null` are one type, before and after an interface has been
declared and the union the other way round has been asked for. -/
theorem typeOf?_canonical_of_nested_union :
    let nested : TypeExpr := .union [.reference "Date" [],
      .parenthesized (.union [.keyword "null", .reference "Date" []])]
    let flat : TypeExpr := .union [.keyword "Date", .keyword "null"]
    let between : List Operation := [.declare ⟨"Event", .ofInterface, [], []⟩,
      .resolve (.union [.keyword "null", .keyword "Date"])]
    let u := ofOperations (.resolve nested :: between)
    (∀ d, .declare d ∈ between → d.name ∉ primitiveNames) ∧
    new.typeOf? nested = some 14 ∧ u.typeOf? nested = some 14 ∧ u.typeOf? flat = some 14 ∧
    nested.normalForm? = flat.normalForm? := by
  intro nested flat between u
  have hbetween : ∀ d, .declare d ∈ between → d.name ∉ primitiveNames := by
    intro d hd
    simp only [between, List.mem_cons, Operation.declare.injEq, reduceCtorEq, List.not_mem_nil,
      or_false] at hd
    subst hd
    decide
  have hnested : new.typeOf? nested = some 14 := by decide +kernel
  have hflat : u.typeOf? flat = some 14 := by decide +kernel
  obtain ⟨hagain, hsame⟩ := typeOf?_canonical [] between hbetween nested flat
  exact ⟨hbetween, hnested, hagain 14 hnested, hflat, (hsame 14 14 hnested hflat).1 rfl⟩

end TypeTable

end DateFields
