import DateFields.Proofs.TypeTable.Bindings
import Mathlib.Logic.Function.Basic

/-!
# Tables with indices

A type need not be searched for in the whole table.  Here its number is recorded when it is entered,
under its name or under what it is made from.  Bound calls are kept in one store for numbers and one
for texts.

* `Indexed`: a table with its indices, and what may be done to it;
* `Indexed.flatten_eq`: members are collected one by one, each once;
* `Indexed.Represents`: the indices find what a search of the table finds;
* `Indexed.Simulates`: a computation has the same result on both, and keeps them together;
* `Indexed.simulates_resolve`, `Indexed.Represents.declare`: resolving and declaring do;
* `Indexed.represents_ofOperations`: so does every sequence of operations.
-/

namespace DateFields.TypeTable

/-- The name that an entry is found by. -/
def Entry.name? : Entry → Option String
  | .primitive name => some name
  | .object d => some d.name
  | _ => none

/-- A table whose types are recorded under what they are found by. -/
structure Indexed where
  /-- The types, each at its own number. -/
  types : List Entry
  /-- Primitive types, classes and interfaces by name. -/
  named : String → Option TypeId
  /-- Inline object types by their members. -/
  literals : List Property → Option TypeId
  /-- Array types by the type of their elements. -/
  arrays : TypeId → Option TypeId
  /-- Unions by their members. -/
  unions : List TypeId → Option TypeId
  /-- Intersections by their members. -/
  intersections : List TypeId → Option TypeId
  /-- Bound calls by file and number. -/
  calls : Path × CallId → Option Declaration
  /-- Bound calls by file and callee text. -/
  callees : Path × String → Option Declaration

namespace Indexed

section Definitions

variable (s : Indexed)

/-- The table with nothing in it. -/
def empty : Indexed :=
  ⟨[], fun _ => none, fun _ => none, fun _ => none, fun _ => none, fun _ => none, fun _ => none,
    fun _ => none⟩

/-- The types alone. -/
def table : TypeTable := ⟨s.types, []⟩

/-! ### Entering -/

/-- The type recorded for an entry.  Nothing is recorded for an entry with a name. -/
def recorded? : Entry → Option TypeId
  | .literal members => s.literals members
  | .array element => s.arrays element
  | .union members => s.unions members
  | .intersection members => s.intersections members
  | .primitive _ | .object _ => none

/-- The table with a type recorded for an entry. -/
def record (id : TypeId) : Entry → Indexed
  | .literal members => { s with literals := Function.update s.literals members (some id) }
  | .array element => { s with arrays := Function.update s.arrays element (some id) }
  | .union members => { s with unions := Function.update s.unions members (some id) }
  | .intersection members =>
    { s with intersections := Function.update s.intersections members (some id) }
  | .primitive _ | .object _ => s

/-- The table with an entry at its end. -/
def push (e : Entry) : Indexed := { s with types := s.types ++ [e] }

/-- The table with an entry at its end that a name leads to from now on. -/
def pushNamed (name : String) (e : Entry) : Indexed :=
  { s.push e with named := Function.update s.named name (some s.types.length) }

/-- The table with a class or an interface declared, and its type.  A name that leads to a primitive
type is given to the declared type. -/
def declare (d : TypeDeclaration) : TypeId × Indexed :=
  match (s.named d.name).filter s.table.isStructured with
  | some id => (id, { s with types := s.types.modify id (Entry.extend d) })
  | none => (s.types.length, s.pushNamed d.name (.object d))

/-- The table every program starts from. -/
def new : Indexed :=
  ((primitiveNames.foldl (fun s name => s.pushNamed name (.primitive name)) empty).declare
    ⟨"Date", .ofInterface, [], []⟩).2

/-! ### Calls -/

/-- The table with a call bound. -/
def bind (b : CallBinding) : Indexed :=
  match b.call, b.callee with
  | some id, _ =>
    { s with calls := Function.update s.calls (b.file.normalize, id) (some b.declaration) }
  | none, some text =>
    { s with callees := Function.update s.callees (b.file.normalize, text) (some b.declaration) }
  | none, none => s

/-- The declaration that a call in a file resolves to. -/
def declarationOf? (file : Path) (id : CallId) (callee : Node) : Option Declaration :=
  if id = .synthetic then callee.dottedName?.bind fun text => s.callees (file.normalize, text)
  else s.calls (file.normalize, id)

/-! ### Questions -/

/-- The type of an entry.  A new entry goes to the end of the table and is recorded. -/
def intern (e : Entry) : StateM Indexed TypeId := fun s =>
  match s.recorded? e with
  | some id => (id, s)
  | none => (s.types.length, (s.push e).record s.types.length e)

/-- A list with a member behind it that it does not have. -/
def addNew (ids : List TypeId) (id : TypeId) : List TypeId := if id ∈ ids then ids else ids ++ [id]

/-- What types consist of, collected one after the other, each once. -/
def flatten (members : TypeId → List TypeId) (ids : List TypeId) : List TypeId :=
  ids.foldl (fun flat id => (members id).foldl addNew flat) []

/-- The type itself when there is one, and an entry for the list otherwise. -/
def combine (entry : List TypeId → Entry) : List TypeId → StateM Indexed TypeId
  | [id] => return id
  | ids => intern (entry ids)

/-- The union of types. -/
def unionOf (ids : List TypeId) : StateM Indexed TypeId := do
  combine .union (flatten (← get).table.unionMembers ids)

/-- The intersection of types. -/
def intersectionOf (ids : List TypeId) : StateM Indexed TypeId := do
  combine .intersection (flatten (← get).table.intersectionMembers ids)

/-- The type of a name. -/
def resolveName (name : String) : OptionT (StateM Indexed) TypeId := do
  OptionT.mk (return (← get).named name)

mutual

/-- The type of an expression. -/
def resolve : TypeExpr → OptionT (StateM Indexed) TypeId
  | .keyword name => resolveName name
  | .reference name [e] =>
    if TypeExpr.isArrayName name then do intern (.array (← resolve e)) else resolveName name
  | .reference name _ => resolveName name
  | .array e => do intern (.array (← resolve e))
  | .union members => do unionOf (← resolveAll members)
  | .intersection members => do intersectionOf (← resolveAll members)
  | .literal members => intern (.literal members)
  | .parenthesized inner => resolve inner
  | .other _ => failure

/-- The types of several expressions, up to the first that has none. -/
def resolveAll : List TypeExpr → OptionT (StateM Indexed) (List TypeId)
  | [] => return []
  | e :: es => return (← resolve e) :: (← resolveAll es)

end

/-- The type named `never`. -/
def never : TypeId := (s.named "never").getD 0

/-- A type with `null` and `undefined` taken out; when nothing is left, `never`. -/
def nonNullable (id : TypeId) : StateM Indexed TypeId := do
  let s ← get
  match s.types[id]? with
  | some (.union members) =>
    match members.filter (!s.table.isNullish ·) with
    | [] => return s.never
    | kept => unionOf kept
  | _ => return if s.table.isNullish id then s.never else id

/-- The spelling of a type, unless the spellings of its parts are asked for through more levels. -/
def text? : Nat → TypeId → Option String
  | 0, _ => none
  | levels + 1, id =>
    match s.types[id]? with
    | none => some "unknown"
    | some (.primitive name) => some name
    | some (.object d) => some d.name
    | some (.literal members) => some (TypeExpr.literal members).text
    | some (.array e) => do
      return grouped (s.table.isUnion e || s.table.isIntersection e) (← text? levels e) ++ "[]"
    | some (.union members) => do return " | ".intercalate (← members.mapM (text? levels))
    | some (.intersection members) => do
      return " & ".intercalate
        (← members.mapM fun m => return grouped (s.table.isUnion m) (← text? levels m))

/-! ### Operations -/

/-- The table after an operation. -/
def apply : Operation → Indexed
  | .declare d => (s.declare d).2
  | .bind b => s.bind b
  | .resolve e => ((resolve e).run.run s).2
  | .nonNullable id => ((nonNullable id).run s).2

/-- The table that a sequence of operations leads to. -/
def ofOperations (ops : List Operation) : Indexed := ops.foldl apply new

end Definitions

variable {s : Indexed} {t : TypeTable} {e : Entry} {name : String}

/-! ### Members -/

/-- The members that are collected are the members of all, each where it comes first. -/
theorem flatten_eq (members : TypeId → List TypeId) (ids : List TypeId) :
    flatten members ids = distinctBy id (ids.flatMap members) := by
  have hadd : addNew = pushNew id := by
    funext flat i
    rw [addNew, pushNew, List.map_id, id_eq]
  have hpush := foldl_pushNew id [] (ids.flatMap members)
  rw [flatten, ← List.foldl_flatMap, hadd]
  exact hpush

/-! ### Records -/

@[simp] theorem types_record (s : Indexed) (id : TypeId) (e : Entry) :
    (s.record id e).types = s.types := by cases e <;> rfl

@[simp] theorem named_record (s : Indexed) (id : TypeId) (e : Entry) :
    (s.record id e).named = s.named := by cases e <;> rfl

@[simp] theorem calls_record (s : Indexed) (id : TypeId) (e : Entry) :
    (s.record id e).calls = s.calls := by cases e <;> rfl

@[simp] theorem callees_record (s : Indexed) (id : TypeId) (e : Entry) :
    (s.record id e).callees = s.callees := by cases e <;> rfl

/-- An entry is recorded in its own index, and there only for itself. -/
theorem recorded?_record (h : e.isNamed = false) (s : Indexed) (id : TypeId) (e' : Entry) :
    (s.record id e).recorded? e' = if e' = e then some id else s.recorded? e' := by
  cases e with
  | primitive | object => cases h
  | literal | array | union | intersection =>
    cases e' <;> simp [record, recorded?, Function.update_apply]

/-! ### Tables and indices -/

/-- The indices find what a search of the table finds. -/
structure Represents (s : Indexed) (t : TypeTable) : Prop where
  /-- The types are the same. -/
  types : s.types = t.entries
  /-- A name leads to what it leads to in the table. -/
  named : ∀ name, s.named name = t.lookup? name
  /-- An entry without a name is recorded where it stands. -/
  recorded : ∀ e, e.isNamed = false → s.recorded? e = t.entries.findIdx? (· == e)
  /-- Calls with a number. -/
  calls : ∀ (file : Path) id, s.calls (file.normalize, id) = t.bindings.lookup (file.place, .number id)
  /-- Calls without one. -/
  callees : ∀ (file : Path) text,
    s.callees (file.normalize, text) = t.bindings.lookup (file.place, .callee text)

theorem Represents.table (h : s.Represents t) : s.table = ⟨t.entries, []⟩ := by
  rw [Indexed.table, h.types]

theorem findIdx?_concat (p : Entry → Bool) (es : List Entry) (e : Entry) :
    (es ++ [e]).findIdx? p = (es.findIdx? p).or (if p e then some es.length else none) := by
  rw [List.findIdx?_append, List.findIdx?_singleton]
  cases p e <;> simp

theorem findIdx?_modify {p : Entry → Bool} {f : Entry → Entry} (h : ∀ e, p (f e) = p e)
    (es : List Entry) (i : Nat) : (es.modify i f).findIdx? p = es.findIdx? p := by
  induction es generalizing i with
  | nil => cases i <;> rfl
  | cons e es ih =>
    cases i with
    | zero => rw [List.modify_zero_cons, List.findIdx?_cons, List.findIdx?_cons, h]
    | succ i => rw [List.modify_succ_cons, List.findIdx?_cons, List.findIdx?_cons, ih]

/-! ### Names -/

theorem isNamed_of_name? (h : e.name? = some name) : e.isNamed = true := by
  cases e <;> first | rfl | cases h

/-- An entry is not found by another name than its own. -/
theorem not_found_of_ne {name' : String} (h : e.name? = some name) (hne : name' ≠ name) :
    e.isObjectNamed name' = false ∧ e.isPrimitiveNamed name' = false := by
  cases e with
  | primitive n =>
    cases h
    exact ⟨rfl, beq_false_of_ne hne.symm⟩
  | object d =>
    cases h
    exact ⟨beq_false_of_ne hne.symm, rfl⟩
  | _ => cases h

/-- A new entry that its name leads to. -/
theorem Represents.pushNamed (h : s.Represents t) (hname : e.name? = some name)
    (hfirst : ({ t with entries := t.entries ++ [e] } : TypeTable).lookup? name =
      some t.entries.length) :
    (s.pushNamed name e).Represents { t with entries := t.entries ++ [e] } where
  types := congrArg (· ++ [e]) h.types
  named name' := by
    by_cases hne : name' = name
    · subst hne
      rw [hfirst, ← h.types]
      exact Function.update_self ..
    · obtain ⟨hobject, hprimitive⟩ := not_found_of_ne hname hne
      have hold : (s.pushNamed name e).named name' = t.lookup? name' :=
        (Function.update_of_ne hne ..).trans (h.named name')
      rw [hold, lookup?, lookup?, findIdx?_append_of_false (by simpa using hobject),
        findIdx?_append_of_false (by simpa using hprimitive)]
  recorded e' he' := by
    -- an entry with a name is not looked for among the recorded ones
    have hne : e ≠ e' := by
      rintro rfl
      rw [isNamed_of_name? hname] at he'
      cases he'
    refine Eq.trans ?_ ((h.recorded e' he').trans (findIdx?_append_of_false ?_).symm)
    · cases e' <;> rfl
    · simpa using hne
  calls := h.calls
  callees := h.callees

/-! ### Declarations -/

/-- The type that a declaration extends is the one its name leads to, unless that is primitive. -/
theorem filter_lookup? (t : TypeTable) (name : String) :
    (t.lookup? name).filter t.isStructured = t.entries.findIdx? (Entry.isObjectNamed name) := by
  cases hfind : t.entries.findIdx? (Entry.isObjectNamed name) with
  | some id =>
    obtain ⟨d, hid, -⟩ := findIdx?_isObjectNamed hfind
    have hlookup : t.lookup? name = some id := by rw [lookup?, hfind]; rfl
    rw [hlookup, Option.filter_some, if_pos (isStructured_iff.2 ⟨d, hid⟩)]
  | none =>
    rw [Option.filter_eq_none_iff]
    intro id hid hstructured
    obtain ⟨d, hd⟩ := isStructured_iff.1 hstructured
    rcases lookup?_some hid with ⟨d', hd', hname⟩ | hprimitive
    · exact not_isObjectNamed hfind hd' hname
    · rw [hprimitive] at hd
      cases hd

theorem extend_beq (d : TypeDeclaration) {e' : Entry} (h : e'.isNamed = false) (e : Entry) :
    (e.extend d == e') = (e == e') := by
  cases e with
  | object d' =>
    cases e' with
    | primitive | object => cases h
    | _ => rfl
  | _ => rfl

/-- A declaration is the same on both. -/
theorem Represents.declare (h : s.Represents t) (d : TypeDeclaration) :
    (s.declare d).1 = (t.declare d).1 ∧ (s.declare d).2.Represents (t.declare d).2 := by
  have hfilter : (s.named d.name).filter s.table.isStructured =
      t.entries.findIdx? (Entry.isObjectNamed d.name) := by
    rw [h.named, h.table]
    exact filter_lookup? t d.name
  rw [Indexed.declare, TypeTable.declare, hfilter]
  cases hfind : t.entries.findIdx? (Entry.isObjectNamed d.name) with
  | some id =>
    have htypes : s.types.modify id (Entry.extend d) = t.entries.modify id (Entry.extend d) := by
      rw [h.types]
    -- the entry that changes keeps its name, and none like it is recorded
    refine ⟨rfl, htypes, fun name => ?_, fun e he => ?_, h.calls, h.callees⟩
    · have hobject (e : Entry) : (e.extend d).isObjectNamed name = e.isObjectNamed name := by
        cases e <;> rfl
      have hprimitive (e : Entry) : (e.extend d).isPrimitiveNamed name = e.isPrimitiveNamed name := by
        cases e <;> rfl
      rw [lookup?, findIdx?_modify hobject, findIdx?_modify hprimitive]
      exact h.named name
    · rw [findIdx?_modify (extend_beq d he), ← h.recorded e he]
      cases e <;> rfl
  | none =>
    refine ⟨congrArg List.length h.types, h.pushNamed rfl ?_⟩
    simp [lookup?, hfind, Entry.isObjectNamed]

/-! ### Calls -/

/-- Other stores of calls, for a table with other bindings. -/
theorem Represents.rebind {u : TypeTable} {calls : Path × CallId → Option Declaration}
    {callees : Path × String → Option Declaration} (h : s.Represents t) (hu : u.entries = t.entries)
    (hcalls : ∀ (file : Path) id,
      calls (file.normalize, id) = u.bindings.lookup (file.place, .number id))
    (hcallees : ∀ (file : Path) text,
      callees (file.normalize, text) = u.bindings.lookup (file.place, .callee text)) :
    ({ s with calls := calls, callees := callees } : Indexed).Represents u where
  types := h.types.trans hu.symm
  named name := by
    rw [lookup?, hu]
    exact h.named name
  recorded e he := by
    rw [hu, ← h.recorded e he]
    cases e <;> rfl
  calls := hcalls
  callees := hcallees

/-- A call binding is the same on both. -/
theorem Represents.bind (h : s.Represents t) (b : CallBinding) : (s.bind b).Represents (t.bind b) := by
  have hentries := entries_bind t b
  obtain ⟨file, call, callee, declaration⟩ := b
  cases call with
  | some id =>
    refine h.rebind hentries (fun file' id' => ?_) fun file' text => ?_
    · rw [lookup_bindings_bind, CallBinding.isUnder_number, ← h.calls]
      refine (Function.update_apply ..).trans (if_congr ?_ rfl rfl)
      rw [Prod.mk.injEq, CallBinding.isForNumber, decide_eq_true_iff, Option.some.injEq]
      exact and_congr eq_comm eq_comm
    · rw [lookup_bindings_bind, CallBinding.isUnder_callee, h.callees]
      simp [CallBinding.isForText]
  | none =>
    cases callee with
    | some text =>
      refine h.rebind hentries (fun file' id' => ?_) fun file' text' => ?_
      · rw [lookup_bindings_bind, CallBinding.isUnder_number, h.calls]
        simp [CallBinding.isForNumber]
      · rw [lookup_bindings_bind, CallBinding.isUnder_callee, ← h.callees]
        refine (Function.update_apply ..).trans (if_congr ?_ rfl rfl)
        rw [Prod.mk.injEq, CallBinding.isForText, decide_eq_true_iff, Option.some.injEq,
          eq_self_iff_true, true_and]
        exact and_congr eq_comm eq_comm
    | none => exact h

/-- A call resolves to the same declaration in both. -/
theorem Represents.declarationOf?_eq (h : s.Represents t) (file : Path) (id : CallId) (callee : Node) :
    s.declarationOf? file id callee = t.declarationOf? file id callee := by
  rw [Indexed.declarationOf?, TypeTable.declarationOf?, callKey?]
  split
  · cases callee.dottedName? with
    | none => rfl
    | some text => exact h.callees file text
  · exact h.calls file id

/-! ### Questions -/

/-- The computations have the same result, and the indices stay those of the table. -/
def Simulates {α : Type} (m' : StateM Indexed α) (m : Entering α) : Prop :=
  ∀ ⦃s t⦄, s.Represents t →
    (m'.run s).1 = (m.run t).1 ∧ (m'.run s).2.Represents (m.run t).2

variable {α β : Type}

theorem Simulates.pure (a : α) : Simulates (Pure.pure a) (Pure.pure a) := fun _ _ h => ⟨rfl, h⟩

theorem Simulates.bind {m' : StateM Indexed α} {m : Entering α} {f' : α → StateM Indexed β}
    {f : α → Entering β} (hm : Simulates m' m) (hf : ∀ a, Simulates (f' a) (f a)) :
    Simulates (m' >>= f') (m >>= f) := by
  intro s t h
  obtain ⟨hresult, hstate⟩ := hm h
  have hrun' : (m' >>= f').run s = (f' (m'.run s).1).run (m'.run s).2 := rfl
  have hrun : (m >>= f).run t = (f (m.run t).1).run (m.run t).2 := rfl
  rw [hrun', hrun, hresult]
  exact hf _ hstate

theorem Simulates.get {f' : Indexed → StateM Indexed β} {f : TypeTable → Entering β}
    (hf : ∀ ⦃s t⦄, s.Represents t → Simulates (f' s) (f t)) :
    Simulates (MonadState.get >>= f') (MonadState.get >>= f) := fun _ _ h => hf h h

theorem Simulates.bind_option {m' : OptionT (StateM Indexed) α} {m : Resolving α}
    {f' : α → OptionT (StateM Indexed) β} {f : α → Resolving β} (hm : Simulates m'.run m.run)
    (hf : ∀ a, Simulates (f' a).run (f a).run) : Simulates (m' >>= f').run (m >>= f).run := by
  rw [OptionT.run_bind, OptionT.run_bind]
  refine hm.bind fun r => ?_
  cases r with
  | none => exact .pure none
  | some a => exact hf a

theorem Simulates.lift {m' : StateM Indexed α} {m : Entering α} (hm : Simulates m' m) :
    Simulates (liftM m' : OptionT (StateM Indexed) α).run (liftM m : Resolving α).run :=
  hm.bind fun a => .pure (some a)

/-- An entry is found by its record where a search of the table finds it, and recorded when it is
new. -/
theorem simulates_intern (he : e.isNamed = false) : Simulates (intern e) (TypeTable.intern e) := by
  intro s t h
  have hrecorded := h.recorded e he
  have hext := grows_intern he t
  cases hfind : t.entries.findIdx? (· == e) with
  | some id =>
    rw [hfind] at hrecorded
    have hrun : (intern e).run s = (id, s) := by simp only [intern, StateT.run, hrecorded]
    rw [hrun, run_intern_old hfind]
    exact ⟨rfl, h⟩
  | none =>
    rw [hfind] at hrecorded
    have hrun : (intern e).run s = (s.types.length, (s.push e).record s.types.length e) := by
      simp only [intern, StateT.run, hrecorded]
    rw [run_intern_new hfind] at hext
    rw [hrun, run_intern_new hfind]
    -- the new entry has no name, so the names lead where they led
    refine ⟨congrArg List.length h.types, ?_, fun name => ?_, fun e' he' => ?_, ?_, ?_⟩
    · rw [types_record, push, h.types]
    · rw [named_record, hext.lookup?_eq]
      exact h.named name
    · have hold : (s.push e).recorded? e' = s.recorded? e' := by cases e' <;> rfl
      rw [recorded?_record he, findIdx?_concat, hold, h.recorded e' he']
      by_cases heq : e' = e
      · subst heq
        simp [hfind, h.types]
      · simp [heq, Ne.symm heq]
    · rw [calls_record]
      exact h.calls
    · rw [callees_record]
      exact h.callees

theorem simulates_combine {entry : List TypeId → Entry} (h : ∀ ids, (entry ids).isNamed = false) :
    ∀ ids, Simulates (combine entry ids) (TypeTable.combine entry ids)
  | [] => simulates_intern (h [])
  | [id] => .pure id
  | i :: j :: ids => simulates_intern (h (i :: j :: ids))

theorem simulates_unionOf (ids : List TypeId) : Simulates (unionOf ids) (TypeTable.unionOf ids) := by
  refine Simulates.get fun s t h => ?_
  rw [flatten_eq, h.table]
  exact simulates_combine (fun _ => rfl) _

theorem simulates_intersectionOf (ids : List TypeId) :
    Simulates (intersectionOf ids) (TypeTable.intersectionOf ids) := by
  refine Simulates.get fun s t h => ?_
  rw [flatten_eq, h.table]
  exact simulates_combine (fun _ => rfl) _

theorem simulates_resolveName (name : String) :
    Simulates (resolveName name).run (TypeTable.resolveName name).run := by
  refine Simulates.get fun s t h => ?_
  rw [h.named]
  exact .pure _

mutual

/-- An expression resolves to the same type on both. -/
theorem simulates_resolve : ∀ e : TypeExpr, Simulates (resolve e).run (TypeTable.resolve e).run
  | .keyword name => simulates_resolveName name
  | .reference name [] => simulates_resolveName name
  | .reference name [e] => by
    rw [resolve, TypeTable.resolve]
    split
    · exact (simulates_resolve e).bind_option fun _ => (simulates_intern rfl).lift
    · exact simulates_resolveName name
  | .reference name (_ :: _ :: _) => simulates_resolveName name
  | .array e => by
    rw [resolve, TypeTable.resolve]
    exact (simulates_resolve e).bind_option fun _ => (simulates_intern rfl).lift
  | .union members => by
    rw [resolve, TypeTable.resolve]
    exact (simulates_resolveAll members).bind_option fun ids => (simulates_unionOf ids).lift
  | .intersection members => by
    rw [resolve, TypeTable.resolve]
    exact (simulates_resolveAll members).bind_option fun ids => (simulates_intersectionOf ids).lift
  | .literal _ => (simulates_intern rfl).lift
  | .parenthesized inner => by
    rw [resolve, TypeTable.resolve]
    exact simulates_resolve inner
  | .other _ => .pure none

theorem simulates_resolveAll :
    ∀ es : List TypeExpr, Simulates (resolveAll es).run (TypeTable.resolveAll es).run
  | [] => .pure (some [])
  | e :: es => by
    rw [resolveAll, TypeTable.resolveAll]
    exact (simulates_resolve e).bind_option fun id =>
      (simulates_resolveAll es).bind_option fun ids => .pure (some (id :: ids))

end

/-- A type without `null` and `undefined` is the same on both. -/
theorem simulates_nonNullable (id : TypeId) :
    Simulates (nonNullable id) (TypeTable.nonNullable id) := by
  refine Simulates.get fun s t h => ?_
  have hnever : s.never = t.never := by rw [never, TypeTable.never, h.named]
  have hnullish : s.table.isNullish = t.isNullish := by rw [h.table]; rfl
  rw [h.types, hnever, hnullish, entryAt?]
  cases t.entries[id]? with
  | none => exact .pure _
  | some e =>
    cases e with
    | union members =>
      dsimp only
      cases members.filter (!t.isNullish ·) with
      | nil => exact .pure _
      | cons => exact simulates_unionOf _
    | _ => exact .pure _

/-! ### Operations -/

/-- Every operation keeps the indices those of the table. -/
theorem Represents.apply (h : s.Represents t) : ∀ op : Operation, (s.apply op).Represents (op.apply t)
  | .declare d => (h.declare d).2
  | .bind b => h.bind b
  | .resolve e => (simulates_resolve e h).2
  | .nonNullable id => (simulates_nonNullable id h).2

/-- Names of their own for primitive types. -/
theorem represents_primitives (names : List String) (hnodup : names.Nodup) :
    (names.foldl (fun s name => s.pushNamed name (.primitive name)) empty).Represents
      ⟨names.map .primitive, []⟩ := by
  induction names using List.reverseRecOn with
  | nil => exact ⟨rfl, fun _ => rfl, fun e _ => by cases e <;> rfl, fun _ _ => rfl, fun _ _ => rfl⟩
  | append_singleton names name ih =>
    obtain ⟨hnodup, -, hdisjoint⟩ := List.nodup_append.1 hnodup
    have hname : name ∉ names := fun h => hdisjoint name h name (List.mem_singleton_self name) rfl
    rw [List.foldl_append, List.map_append]
    refine (ih hnodup).pushNamed (e := .primitive name) rfl ?_
    -- nothing in front has the name
    have hobject : (names.map Entry.primitive).findIdx? (Entry.isObjectNamed name) = none := by
      simp [List.findIdx?_eq_none_iff, Entry.isObjectNamed]
    have hprimitive : (names.map Entry.primitive).findIdx? (Entry.isPrimitiveNamed name) = none := by
      refine List.findIdx?_eq_none_iff.2 fun e he => ?_
      obtain ⟨n, hn, rfl⟩ := List.mem_map.1 he
      exact beq_false_of_ne fun heq => hname (heq ▸ hn)
    simp [lookup?, hobject, hprimitive, Entry.isObjectNamed, Entry.isPrimitiveNamed]

theorem represents_new : Indexed.new.Represents TypeTable.new :=
  ((represents_primitives primitiveNames (by decide)).declare _).2

/-- After any operations the indices find what a search of the table finds. -/
theorem represents_ofOperations (ops : List Operation) :
    (ofOperations ops).Represents (TypeTable.ofOperations ops) := by
  have run : ∀ (ops : List Operation) {s : Indexed} {t : TypeTable}, s.Represents t →
      (ops.foldl apply s).Represents (ops.foldl Operation.apply t) := by
    intro ops
    induction ops with
    | nil => exact fun h => h
    | cons op ops ih => exact fun h => ih (h.apply op)
  exact run ops represents_new

end Indexed

end DateFields.TypeTable
