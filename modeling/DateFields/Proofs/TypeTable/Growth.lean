import DateFields.TypeTable.Discovery

/-!
# Growing tables

Whatever is asked of a table, it only grows: types of arrays, unions, intersections and inline
object types are appended, and nothing else changes.

* `Extends` — a table with such types appended; the names and the call bindings are those of the old
  table (`Extends.lookup?_eq`);
* `Grows` — a computation that always leaves an extension of the table it is given;
* `grows_resolve`, `grows_discover` — resolving an expression and following the fields of a type
  are such computations.
-/

namespace DateFields.TypeTable

/-! ### Extensions -/

/-- The type is found by its name. -/
def Entry.isNamed : Entry → Bool
  | .primitive _ => true
  | .object _ => true
  | _ => false

/-- `u` is `t` with types appended that no name finds. -/
structure Extends (t u : TypeTable) : Prop where
  /-- The old entries come first, and no new one has a name. -/
  entries : ∃ new, u.entries = t.entries ++ new ∧ ∀ e ∈ new, e.isNamed = false
  /-- The call bindings stay. -/
  bindings : u.bindings = t.bindings

variable {t u v : TypeTable}

theorem Extends.refl (t : TypeTable) : t.Extends t := ⟨⟨[], by simp⟩, rfl⟩

theorem Extends.trans (h : t.Extends u) (h' : u.Extends v) : t.Extends v := by
  obtain ⟨new, hn, hnew⟩ := h.entries
  obtain ⟨new', hn', hnew'⟩ := h'.entries
  refine ⟨⟨new ++ new', by rw [hn', hn, List.append_assoc], fun e he => ?_⟩,
    h'.bindings.trans h.bindings⟩
  rcases List.mem_append.1 he with he | he
  · exact hnew e he
  · exact hnew' e he

theorem Extends.length_le (h : t.Extends u) : t.entries.length ≤ u.entries.length := by
  obtain ⟨new, hn, -⟩ := h.entries
  simp [hn]

/-- An entry stays where it is. -/
theorem Extends.entryAt?_eq (h : t.Extends u) {id : TypeId} (hid : id < t.entries.length) :
    u.entryAt? id = t.entryAt? id := by
  obtain ⟨new, hn, -⟩ := h.entries
  rw [entryAt?, entryAt?, hn, List.getElem?_append_left hid]

theorem lt_of_entryAt? {id : TypeId} {e : Entry} (h : t.entryAt? id = some e) :
    id < t.entries.length :=
  (List.getElem?_eq_some_iff.1 h).1

theorem Extends.entryAt?_some (h : t.Extends u) {id : TypeId} {e : Entry}
    (he : t.entryAt? id = some e) : u.entryAt? id = some e := by
  rw [h.entryAt?_eq (lt_of_entryAt? he), he]

/-- A type that has a name was there before. -/
theorem Extends.entryAt?_of_named (h : t.Extends u) {id : TypeId} {e : Entry}
    (he : u.entryAt? id = some e) (hn : e.isNamed = true) : t.entryAt? id = some e := by
  obtain ⟨new, hu, hnew⟩ := h.entries
  rw [entryAt?, hu, List.getElem?_append] at he
  split at he
  · exact he
  · exact absurd hn (by simp [hnew e (List.mem_of_getElem? he)])

theorem findIdx?_append_of_false {p : Entry → Bool} {es new : List Entry}
    (h : ∀ e ∈ new, p e = false) : (es ++ new).findIdx? p = es.findIdx? p := by
  have hnew : new.findIdx? p = none := by simpa [List.findIdx?_eq_none_iff] using h
  simp [List.findIdx?_append, hnew]

/-- A name finds what it found before. -/
theorem Extends.lookup?_eq (h : t.Extends u) (name : String) : u.lookup? name = t.lookup? name := by
  obtain ⟨new, hu, hnew⟩ := h.entries
  have ho : ∀ e ∈ new, Entry.isObjectNamed name e = false := fun e he => by
    have := hnew e he
    cases e <;> simp_all [Entry.isNamed, Entry.isObjectNamed]
  have hp : ∀ e ∈ new, Entry.isPrimitiveNamed name e = false := fun e he => by
    have := hnew e he
    cases e <;> simp_all [Entry.isNamed, Entry.isPrimitiveNamed]
  rw [lookup?, lookup?, hu, findIdx?_append_of_false ho, findIdx?_append_of_false hp]

theorem isStructured_iff {id : TypeId} :
    t.isStructured id = true ↔ ∃ d, t.entryAt? id = some (.object d) := by
  rw [isStructured]
  cases t.entryAt? id with
  | none => simp
  | some e => cases e <;> simp [Entry.isObject]

theorem Extends.never_eq (h : t.Extends u) : u.never = t.never := by
  rw [never, never, h.lookup?_eq]

/-- A call resolves to the same declaration in tables with the same bindings. -/
theorem declarationOf?_congr (h : u.bindings = t.bindings) (file : Path) (id : CallId)
    (callee : Node) : u.declarationOf? file id callee = t.declarationOf? file id callee := by
  rw [declarationOf?, declarationOf?, h]

/-! ### Computations that only extend -/

/-- A computation that leaves an extension of the table it is given. -/
def Grows {α : Type} (m : Entering α) : Prop := ∀ t : TypeTable, t.Extends (m.run t).2

variable {α β : Type}

theorem Grows.pure (a : α) : Grows (Pure.pure a) := fun t => Extends.refl t

theorem Grows.bind {m : Entering α} {f : α → Entering β} (hm : Grows m) (hf : ∀ a, Grows (f a)) :
    Grows (m >>= f) := fun t => (hm t).trans (hf _ _)

theorem Grows.get : Grows (MonadState.get : Entering TypeTable) := fun t => Extends.refl t

theorem Grows.mapM {f : α → Entering β} {as : List α} (hf : ∀ a ∈ as, Grows (f a)) :
    Grows (as.mapM f) := by
  induction as with
  | nil => exact Grows.pure _
  | cons a as ih =>
    rw [List.mapM_cons]
    exact (hf a List.mem_cons_self).bind fun b =>
      (ih fun c hc => hf c (List.mem_cons_of_mem a hc)).bind fun bs => Grows.pure _

/-- A computation that may come to nothing goes on with what it has come to. -/
theorem Grows.bind_option {m : Resolving α} {f : α → Resolving β} (hm : Grows m.run)
    (hf : ∀ a, Grows (f a).run) : Grows (m >>= f).run := by
  rw [OptionT.run_bind]
  refine hm.bind fun r => ?_
  cases r with
  | none => exact Grows.pure _
  | some a => exact hf a

theorem grows_intern {e : Entry} (h : e.isNamed = false) : Grows (intern e) := by
  intro t
  simp only [intern, StateT.run]
  split
  · exact Extends.refl t
  · exact ⟨⟨[e], rfl, by simpa using h⟩, rfl⟩

theorem grows_combine {entry : List TypeId → Entry} (h : ∀ ids, (entry ids).isNamed = false)
    (ids : List TypeId) : Grows (combine entry ids) := by
  match ids with
  | [] => exact grows_intern (h [])
  | [id] => exact Grows.pure id
  | i :: j :: ids => exact grows_intern (h _)

theorem grows_unionOf (ids : List TypeId) : Grows (unionOf ids) :=
  Grows.get.bind fun _ => grows_combine (fun _ => rfl) _

theorem grows_intersectionOf (ids : List TypeId) : Grows (intersectionOf ids) :=
  Grows.get.bind fun _ => grows_combine (fun _ => rfl) _

theorem grows_resolveName (name : String) : Grows (resolveName name).run :=
  Grows.get.bind fun _ => Grows.pure _

theorem Grows.lift {m : Entering α} (hm : Grows m) : Grows (liftM m : Resolving α).run :=
  hm.bind fun _ => Grows.pure _

mutual

/-- Resolving an expression only enters types. -/
theorem grows_resolve : ∀ e : TypeExpr, Grows (resolve e).run
  | .keyword name => grows_resolveName name
  | .reference name [] => grows_resolveName name
  | .reference name [e] => by
    rw [resolve]
    split
    · exact (grows_resolve e).bind_option fun _ => (grows_intern rfl).lift
    · exact grows_resolveName name
  | .reference name (_ :: _ :: _) => grows_resolveName name
  | .array e => by
    rw [resolve]
    exact (grows_resolve e).bind_option fun _ => (grows_intern rfl).lift
  | .union members => by
    rw [resolve]
    exact (grows_resolveAll members).bind_option fun _ => (grows_unionOf _).lift
  | .intersection members => by
    rw [resolve]
    exact (grows_resolveAll members).bind_option fun _ => (grows_intersectionOf _).lift
  | .literal _ => (grows_intern rfl).lift
  | .parenthesized inner => by rw [resolve]; exact grows_resolve inner
  | .other _ => Grows.pure none

theorem grows_resolveAll : ∀ es : List TypeExpr, Grows (resolveAll es).run
  | [] => Grows.pure _
  | e :: es => by
    rw [resolveAll]
    exact (grows_resolve e).bind_option fun _ =>
      (grows_resolveAll es).bind_option fun _ => Grows.pure _

end

theorem grows_nonNullable (id : TypeId) : Grows (nonNullable id) := by
  refine Grows.get.bind fun t => ?_
  split
  · split
    · exact Grows.pure _
    · exact grows_unionOf _
  · exact Grows.pure _

theorem grows_classify (timestamp : String) (declared : TypeExpr) :
    Grows (classify timestamp declared).run :=
  (grows_resolve _).bind_option fun id => (grows_nonNullable id).lift.bind_option fun _ =>
    Grows.get.lift.bind_option fun _ => Grows.pure _

theorem grows_fieldPaths {timestamp : String} {inner : TypeId → FieldPath → Entering FieldPaths}
    (h : ∀ id path, Grows (inner id path)) (path : FieldPath) (p : Property) :
    Grows (fieldPaths timestamp inner path p) := by
  rw [fieldPaths.eq_def]
  split
  · exact Grows.pure _
  · refine (grows_classify _ _).bind fun r => ?_
    split
    · exact Grows.pure _
    · exact Grows.pure _
    · exact h _ _

theorem grows_walk (timestamp : String) (steps : Nat) (onWay : List TypeId) (id : TypeId)
    (path : FieldPath) : Grows (walk timestamp steps onWay id path) := by
  induction steps generalizing onWay id path with
  | zero => exact Grows.pure _
  | succ steps ih =>
    rw [walk]
    split
    · exact Grows.pure _
    · exact Grows.get.bind fun t =>
        (Grows.mapM fun p _ => grows_fieldPaths (fun id path => ih _ id path) path p).bind fun _ =>
          Grows.pure _

/-- Following the fields of a type only enters types. -/
theorem grows_discover (timestamp : String) (id : TypeId) (path : FieldPath) :
    Grows (discover timestamp id path) :=
  Grows.get.bind fun _ => grows_walk _ _ _ _ _

end DateFields.TypeTable
