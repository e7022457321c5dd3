import DateFields.Proofs.TypeTable.Resolution
import DateFields.TypeTable.Document

/-!
# How tables come about

A table starts with the primitive types, takes in declarations and call bindings, and is asked for
types.  All of this may happen in any order.

* `Operation`, `Operation.apply` — one thing done to a table;
* `ofOperations` — the table that a sequence of operations leads to, which later ones go on from
  (`ofOperations_append`);
* `wellFormed_ofOperations` — every such table is well formed;
* `ofDeclarations_eq`, `wellFormed_ofDeclarations` — the table of a document is one of them.
-/

namespace DateFields.TypeTable

/-- What may be done to a table. -/
inductive Operation where
  /-- A class or an interface is declared. -/
  | declare (d : TypeDeclaration)
  /-- A call is bound. -/
  | bind (b : CallBinding)
  /-- The type of an expression is asked for. -/
  | resolve (e : TypeExpr)
  /-- A type without `null` and `undefined` is asked for. -/
  | nonNullable (id : TypeId)

/-- The table after an operation. -/
def Operation.apply (t : TypeTable) : Operation → TypeTable
  | .declare d => (t.declare d).2
  | .bind b => t.bind b
  | .resolve e => ((TypeTable.resolve e).run.run t).2
  | .nonNullable id => ((TypeTable.nonNullable id).run t).2

/-- The table that a sequence of operations leads to. -/
def ofOperations (ops : List Operation) : TypeTable := ops.foldl Operation.apply new

/-- Later operations go on from the table that the earlier ones lead to. -/
theorem ofOperations_append (before after : List Operation) :
    ofOperations (before ++ after) = after.foldl Operation.apply (ofOperations before) :=
  List.foldl_append

variable {t : TypeTable}

/-- Nothing is entered when a type that is not in the table is asked for. -/
theorem run_nonNullable_of_none {id : TypeId} (h : t.entryAt? id = none) :
    (nonNullable id).run t = (id, t) := by
  have hnull : t.isNullish id = false := by rw [isNullish, h]
  rw [nonNullable, run_get_bind, h, hnull]
  rfl

/-- Every operation keeps the invariant. -/
theorem WellFormed.apply (ht : t.WellFormed) (op : Operation) : (op.apply t).WellFormed := by
  cases op with
  | declare d => exact ht.declare d
  | bind b => exact ht.bind b
  | resolve e => exact (ensures_resolve e ht).wellFormed
  | nonNullable id =>
    cases he : t.entryAt? id with
    | none => rw [Operation.apply, run_nonNullable_of_none he]; exact ht
    | some e => exact (ensures_nonNullable ht ⟨lt_of_entryAt? he, rfl⟩).wellFormed

/-- Every table that operations lead to is well formed. -/
theorem wellFormed_ofOperations (ops : List Operation) : (ofOperations ops).WellFormed :=
  List.foldlRecOn ops Operation.apply wellFormed_new fun _ ht op _ => ht.apply op

/-- The table of a document is made by its declarations and then its bindings. -/
theorem ofDeclarations_eq (types : List TypeDeclaration) (calls : List CallBinding) :
    ofDeclarations types calls = ofOperations (types.map .declare ++ calls.map .bind) := by
  rw [ofDeclarations, ofOperations, List.foldl_append, List.foldl_map, List.foldl_map]
  rfl

/-- The table of a document is well formed. -/
theorem wellFormed_ofDeclarations (types : List TypeDeclaration) (calls : List CallBinding) :
    (ofDeclarations types calls).WellFormed := by
  rw [ofDeclarations_eq]
  exact wellFormed_ofOperations _

end DateFields.TypeTable
