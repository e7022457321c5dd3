import DateFields.Proofs.Node.Replies
import DateFields.Proofs.Path.Place
import DateFields.Proofs.TypeTable.Declarations
import Mathlib.Data.List.Induction

/-!
# Bound calls

A call is found by its number, or, when it was given none, by the dotted text of its callee.  Either
way the last binding for it counts, and nothing else does.

* `Node.Dotted`: plain names and chains of property accesses, and their texts;
* `TypeTable.lastBound?`: what the last wanted binding among some operations binds;
* `TypeTable.lookup_bindings`: what is found in the table is the last binding under its key;
* `TypeTable.declarationOf?_ofOperations`: what a call resolves to after any operations.
-/

namespace DateFields

/-! ### Dotted texts -/

/-- A plain name, or a chain of property accesses on one, and its dotted text. -/
inductive Node.Dotted : Node → String → Prop where
  /-- A name. -/
  | identifier (name : String) : Dotted (.identifier name) name
  /-- A property of a chain. -/
  | propertyAccess {e : Node} {text : String} (h : Dotted e text) (name : String) :
    Dotted (.propertyAccess e name) (text ++ "." ++ name)

theorem Node.dottedName?_eq_some_iff {n : Node} {text : String} :
    n.dottedName? = some text ↔ n.Dotted text := by
  constructor
  · intro h
    fun_induction dottedName? n generalizing text with
    | case1 name => cases h; exact .identifier name
    | case2 e name ih =>
      obtain ⟨front, hfront, rfl⟩ := Option.map_eq_some_iff.1 h
      exact (ih hfront).propertyAccess name
    | case3 => cases h
  · intro h
    induction h with
    | identifier name => rfl
    | propertyAccess _ name ih => rw [dottedName?, ih]; rfl

/-! ### Wanted bindings -/

namespace CallBinding

/-- The binding is for the calls in a file that carry a number. -/
def isForNumber (file : Path) (id : CallId) (b : CallBinding) : Bool :=
  b.file.normalize = file.normalize ∧ b.call = some id

/-- The binding is for the calls in a file that carry no number and have a callee text. -/
def isForText (file : Path) (text : String) (b : CallBinding) : Bool :=
  b.file.normalize = file.normalize ∧ b.call = none ∧ b.callee = some text

/-- The binding is for a call. -/
def IsFor (b : CallBinding) (file : Path) (id : CallId) (callee : Node) : Prop :=
  if id = .synthetic then ∃ text, callee.Dotted text ∧ b.isForText file text = true
  else b.isForNumber file id = true

/-- The binding is stored under a key. -/
def isUnder (key : Place × CallKey) (b : CallBinding) : Bool :=
  b.file.place = key.1 ∧ b.key? = some key.2

theorem key?_eq_number_iff {b : CallBinding} {id : CallId} :
    b.key? = some (.number id) ↔ b.call = some id := by
  rw [key?]
  cases b.call <;> cases b.callee <;> simp

theorem key?_eq_callee_iff {b : CallBinding} {text : String} :
    b.key? = some (.callee text) ↔ b.call = none ∧ b.callee = some text := by
  rw [key?]
  cases b.call <;> cases b.callee <;> simp

theorem isUnder_number (file : Path) (id : CallId) :
    isUnder (file.place, .number id) = isForNumber file id := by
  funext b
  simp only [isUnder, isForNumber, key?_eq_number_iff, Path.normalize_eq_iff]

theorem isUnder_callee (file : Path) (text : String) :
    isUnder (file.place, .callee text) = isForText file text := by
  funext b
  simp only [isUnder, isForText, key?_eq_callee_iff, Path.normalize_eq_iff]

end CallBinding

namespace TypeTable

/-- The binding that an operation adds. -/
def Operation.binding? : Operation → Option CallBinding
  | .bind b => some b
  | _ => none

/-- What the last wanted binding among some operations binds. -/
def lastBound? (wanted : CallBinding → Bool) (ops : List Operation) : Option Declaration :=
  ((ops.filterMap Operation.binding?).filter wanted).getLast?.map CallBinding.declaration

variable {t : TypeTable} {wanted : CallBinding → Bool} {ops before after : List Operation}
  {op : Operation} {file : Path} {id : CallId} {callee : Node}

/-- Only a binding of a call changes what is bound. -/
theorem bindings_apply (h : op.binding? = none) : (op.apply t).bindings = t.bindings := by
  cases op with
  | declare d => exact bindings_declare t d
  | bind b => cases h
  | resolve e => exact (grows_resolve e t).bindings
  | nonNullable id => exact (grows_nonNullable id t).bindings

/-- What is found after a call has been bound. -/
theorem lookup_bindings_bind (t : TypeTable) (b : CallBinding) (key : Place × CallKey) :
    (t.bind b).bindings.lookup key =
      if b.isUnder key then some b.declaration else t.bindings.lookup key := by
  obtain ⟨place, key⟩ := key
  rw [bind, CallBinding.isUnder]
  cases b.key? with
  | none => simp
  | some k =>
    by_cases h : b.file.place = place ∧ k = key
    · obtain ⟨rfl, rfl⟩ := h
      simp
    · have hbeq : ((place, key) == (b.file.place, k)) = false := beq_false_of_ne fun heq =>
        h ⟨congrArg Prod.fst heq.symm, congrArg Prod.snd heq.symm⟩
      simp [List.lookup_cons, hbeq, h]

theorem lastBound?_concat (wanted : CallBinding → Bool) (ops : List Operation) (op : Operation) :
    lastBound? wanted (ops ++ [op]) =
      match op.binding? with
      | some b => if wanted b then some b.declaration else lastBound? wanted ops
      | none => lastBound? wanted ops := by
  cases h : op.binding? with
  | none => simp [lastBound?, h]
  | some b => cases hb : wanted b <;> simp [lastBound?, h, hb]

/-- What is found under a key is what was last bound under it. -/
theorem lookup_bindings (ops : List Operation) (key : Place × CallKey) :
    (ofOperations ops).bindings.lookup key = lastBound? (CallBinding.isUnder key) ops := by
  induction ops using List.reverseRecOn with
  | nil => rfl
  | append_singleton ops op ih =>
    have hstep : ofOperations (ops ++ [op]) = op.apply (ofOperations ops) :=
      ofOperations_append ops [op]
    rw [hstep, lastBound?_concat, ← ih]
    cases h : op.binding? with
    | none => rw [bindings_apply h]
    | some b =>
      cases op with
      | bind b' => cases h; exact lookup_bindings_bind _ b key
      | declare | resolve | nonNullable => cases h

/-- An operation that adds no wanted binding can be left out. -/
theorem lastBound?_append_cons (h : ∀ b, op = .bind b → wanted b = false) :
    lastBound? wanted (before ++ op :: after) = lastBound? wanted (before ++ after) := by
  rw [lastBound?, lastBound?, List.filterMap_append, List.filterMap_append, List.filterMap_cons]
  cases op with
  | bind b => simp [Operation.binding?, h b rfl]
  | declare | resolve | nonNullable => rfl

/-! ### Calls -/

theorem declarationOf?_number (h : id ≠ .synthetic) :
    (ofOperations ops).declarationOf? file id callee =
      lastBound? (CallBinding.isForNumber file id) ops := by
  rw [declarationOf?, callKey?, if_neg h, ← CallBinding.isUnder_number, ← lookup_bindings]
  rfl

theorem declarationOf?_text {text : String} (h : callee.Dotted text) :
    (ofOperations ops).declarationOf? file .synthetic callee =
      lastBound? (CallBinding.isForText file text) ops := by
  rw [declarationOf?, callKey?, if_pos rfl, Node.dottedName?_eq_some_iff.2 h,
    ← CallBinding.isUnder_callee, ← lookup_bindings]
  rfl

theorem declarationOf?_of_not_dotted (h : ∀ text, ¬callee.Dotted text) :
    t.declarationOf? file .synthetic callee = none := by
  have hnone : callee.dottedName? = none :=
    Option.eq_none_iff_forall_ne_some.2 fun text htext =>
      h text (Node.dottedName?_eq_some_iff.1 htext)
  rw [declarationOf?, callKey?, if_pos rfl, hnone]
  rfl

/-- An operation that adds no binding for a call makes no difference to it, wherever it is done. -/
theorem declarationOf?_append_cons (h : ∀ b, op = .bind b → ¬b.IsFor file id callee) :
    (ofOperations (before ++ op :: after)).declarationOf? file id callee =
      (ofOperations (before ++ after)).declarationOf? file id callee := by
  by_cases hid : id = .synthetic
  · subst hid
    by_cases hdotted : ∃ text, callee.Dotted text
    · obtain ⟨text, htext⟩ := hdotted
      rw [declarationOf?_text htext, declarationOf?_text htext]
      refine lastBound?_append_cons fun b hb => Bool.eq_false_iff.2 fun hfor => h b hb ?_
      rw [CallBinding.IsFor, if_pos rfl]
      exact ⟨text, htext, hfor⟩
    · have hnone := fun text htext => hdotted ⟨text, htext⟩
      rw [declarationOf?_of_not_dotted hnone, declarationOf?_of_not_dotted hnone]
  · rw [declarationOf?_number hid, declarationOf?_number hid]
    refine lastBound?_append_cons fun b hb => Bool.eq_false_iff.2 fun hfor => h b hb ?_
    rw [CallBinding.IsFor, if_neg hid]
    exact hfor

/-- **The last binding for a call counts, and nothing else.** A call with a number resolves to what
was last bound to that number in its file, whatever its callee is; a call without one to what was
last bound, without a number, to the dotted text of its callee in its file, and to nothing when the
callee has none.  Files are the same when their normal forms are.  An operation that is no binding
for the call can be left out anywhere. -/
theorem declarationOf?_ofOperations (file : Path) (callee : Node) :
    (∀ ops id, id ≠ .synthetic → (ofOperations ops).declarationOf? file id callee =
      lastBound? (CallBinding.isForNumber file id) ops) ∧
    (∀ ops text, callee.Dotted text → (ofOperations ops).declarationOf? file .synthetic callee =
      lastBound? (CallBinding.isForText file text) ops) ∧
    ((∀ text, ¬callee.Dotted text) → ∀ ops,
      (ofOperations ops).declarationOf? file .synthetic callee = none) ∧
    ∀ before op after id, (∀ b, op = .bind b → ¬b.IsFor file id callee) →
      (ofOperations (before ++ op :: after)).declarationOf? file id callee =
        (ofOperations (before ++ after)).declarationOf? file id callee :=
  ⟨fun _ _ => declarationOf?_number, fun _ _ => declarationOf?_text,
    fun h _ => declarationOf?_of_not_dotted h, fun _ _ _ _ => declarationOf?_append_cons⟩

end TypeTable

namespace Sample

/-- A function in a declaration file. -/
def declaredAs (name : String) : Declaration := ⟨.function, ⟨"/lib/dates.d.ts"⟩, some name⟩

/-- A number is bound, the text `lib.dates`, and the number again with that text, for two spellings
of a file; questions are asked in between. -/
def boundTwice : List TypeTable.Operation :=
  [.bind ⟨⟨"/app.ts"⟩, some ⟨1⟩, none, declaredAs "first"⟩,
    .resolve (.array (.keyword "string")),
    .bind ⟨⟨"/app.ts"⟩, none, some "lib.dates", declaredAs "second"⟩,
    .declare ⟨"Event", .ofInterface, [], []⟩,
    .bind ⟨⟨"/src/../app.ts"⟩, some ⟨1⟩, some "lib.dates", declaredAs "third"⟩]

/-- The call with the number resolves to what was bound last, and so does one with the text and no
number, for which the last binding does not count. -/
theorem declarationOf?_boundTwice :
    let t := TypeTable.ofOperations boundTwice
    let callee : Node := .propertyAccess (.identifier "lib") "dates"
    t.declarationOf? ⟨"/./app.ts"⟩ ⟨1⟩ callee = some (declaredAs "third") ∧
      t.declarationOf? ⟨"/./app.ts"⟩ .synthetic callee = some (declaredAs "second") ∧
      t.declarationOf? ⟨"/./app.ts"⟩ .synthetic (.plainCall callee []) = none ∧
      (TypeTable.ofOperations (boundTwice.take 4)).declarationOf? ⟨"/./app.ts"⟩ .synthetic callee =
        some (declaredAs "second") := by
  intro t callee
  have hdotted : callee.Dotted "lib.dates" := (Node.Dotted.identifier "lib").propertyAccess "dates"
  obtain ⟨hnumber, htext, -, hskip⟩ := TypeTable.declarationOf?_ofOperations ⟨"/./app.ts"⟩ callee
  have hsecond : t.declarationOf? ⟨"/./app.ts"⟩ .synthetic callee = some (declaredAs "second") :=
    (htext boundTwice _ hdotted).trans (by decide +kernel)
  obtain ⟨-, -, hnone, -⟩ :=
    TypeTable.declarationOf?_ofOperations ⟨"/./app.ts"⟩ (.plainCall callee [])
  refine ⟨(hnumber boundTwice ⟨1⟩ (by decide)).trans (by decide +kernel), hsecond,
    hnone nofun boundTwice, ?_⟩
  have hthird := hskip (boundTwice.take 4) (boundTwice.getLast (by decide)) [] .synthetic ?_
  · exact hthird.symm.trans hsecond
  · intro b hb hfor
    cases hb
    rw [CallBinding.IsFor, if_pos rfl] at hfor
    obtain ⟨text, -, htext⟩ := hfor
    simp [CallBinding.isForText] at htext

end Sample

end DateFields
