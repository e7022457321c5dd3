import DateFields.Proofs.TypeTable.Members
import DateFields.Text.Word

/-!
# Wrapped types

The declared type of a field is looked at without the array types and parentheses around it, and
without `null` and `undefined`, in this order.  An array type that is a member of a union therefore
stays, and the field is a leaf.

* `Wrapping` — array types, parentheses, and unions with `null` and `undefined` around a type;
* `UpToNull` — a form that is another one with `null` and `undefined` added to it at most;
* `Wrapping.normal?_around` — what a wrapped type stands for is an array just when there is an array
  type around it, up to `null`;
* `fieldType?_around` — wrappings that a field type does not depend on.
-/

namespace DateFields

/-! ### Wrappings -/

/-- The types that are left aside in unions. -/
inductive Nullish where
  /-- `null` -/
  | null
  /-- `undefined` -/
  | undefined
  deriving DecidableEq

/-- The spelling of such a type. -/
def Nullish.name : Nullish → String
  | .null => "null"
  | .undefined => "undefined"

/-- The type expression. -/
def Nullish.expr (n : Nullish) : TypeExpr := .keyword n.name

/-- The generic array types. -/
inductive ArrayName where
  /-- `Array` -/
  | mutable
  /-- `ReadonlyArray` -/
  | readonly
  deriving DecidableEq

/-- The name of the generic type. -/
def ArrayName.text : ArrayName → String
  | .mutable => "Array"
  | .readonly => "ReadonlyArray"

/-- What may stand around a type. -/
inductive Wrapping where
  /-- Nothing. -/
  | plain
  /-- `T[]` -/
  | array (inner : Wrapping)
  /-- `Array<T>`, `ReadonlyArray<T>` -/
  | generic (name : ArrayName) (inner : Wrapping)
  /-- `(T)` -/
  | parens (inner : Wrapping)
  /-- `null | T | undefined` and the like. -/
  | union (before : List Nullish) (inner : Wrapping) (after : List Nullish)

namespace Wrapping

/-- The wrapped type. -/
def around (e : TypeExpr) : Wrapping → TypeExpr
  | .plain => e
  | .array w => .array (w.around e)
  | .generic name w => .reference name.text [w.around e]
  | .parens w => .parenthesized (w.around e)
  | .union before w after => .union (before.map Nullish.expr ++ w.around e :: after.map Nullish.expr)

/-- There is an array type among the wrappers. -/
def hasArray : Wrapping → Bool
  | .plain => false
  | .array _ => true
  | .generic _ _ => true
  | .parens w => w.hasArray
  | .union _ w _ => w.hasArray

/-- There is an array type inside a union. -/
def hasArrayInUnion : Wrapping → Bool
  | .plain => false
  | .array w => w.hasArrayInUnion
  | .generic _ w => w.hasArrayInUnion
  | .parens w => w.hasArrayInUnion
  | .union _ w _ => w.hasArray

/-- The wrappers that are left when array types and parentheses are taken off. -/
def unwrapped : Wrapping → Wrapping
  | .plain => .plain
  | .array w => w.unwrapped
  | .generic _ w => w.unwrapped
  | .parens w => w.unwrapped
  | .union before w after => .union before w after

theorem isArrayName_text (name : ArrayName) : TypeExpr.isArrayName name.text = true := by
  cases name <;> rfl

theorem unwrapArrays_around (name : String) (w : Wrapping) :
    (w.around (.reference name [])).unwrapArrays = w.unwrapped.around (.reference name []) := by
  induction w with
  | plain => rfl
  | array w ih => exact ih
  | generic g w ih => rw [around, TypeExpr.unwrapArrays, if_pos (isArrayName_text g), ih, unwrapped]
  | parens w ih => exact ih
  | union before w after _ => rfl

theorem hasArray_unwrapped (w : Wrapping) : w.unwrapped.hasArray = w.hasArrayInUnion := by
  induction w with
  | plain => rfl
  | array w ih => exact ih
  | generic _ w ih => exact ih
  | parens w ih => exact ih
  | union before w after _ => rfl

end Wrapping

/-! ### Null -/

namespace TypeExpr

/-- The form is `x`, or a union of `x` with `null` or `undefined`. -/
def UpToNull (x f : TypeExpr) : Prop := f.unionMembers.filter (!·.isNullish) = [x]

variable {x f : TypeExpr}

theorem upToNull_self (hx : x.unionMembers = [x]) (hnull : x.isNullish = false) : UpToNull x x := by
  simp [UpToNull, hx, hnull]

theorem isNullish_nullish (n : Nullish) : n.expr.isNullish = true := by
  cases n <;> rfl

theorem eq_of_filter_singleton {p : TypeExpr → Bool} {y : TypeExpr} (h : [y].filter p = [x]) :
    x = y :=
  List.mem_singleton.1 (List.mem_of_mem_filter (h ▸ List.mem_singleton_self x))

theorem flatMap_unionMembers_nullish (ns : List Nullish) :
    ((ns.map Nullish.expr).flatMap unionMembers).filter (!·.isNullish) = [] := by
  rw [List.filter_eq_nil_iff]
  intro e he
  obtain ⟨e', he', hmem⟩ := List.mem_flatMap.1 he
  obtain ⟨n, -, rfl⟩ := List.mem_map.1 he'
  obtain rfl := List.mem_singleton.1 hmem
  simp [isNullish_nullish]

/-- The combination of members that are `x` up to `null` and `undefined`. -/
theorem upToNull_combined (hx : x.unionMembers = [x]) {members : List TypeExpr}
    (h : members.filter (!·.isNullish) = [x]) : UpToNull x (combined .union members) := by
  rcases members with _ | ⟨y, _ | ⟨z, members⟩⟩
  · exact h
  · -- a single member can only be `x`
    obtain rfl := eq_of_filter_singleton h
    rw [UpToNull, combined, hx, h]
  · exact h

/-- More of `null` and `undefined` may be added. -/
theorem UpToNull.union (h : UpToNull x f) (hx : x.unionMembers = [x]) (before after : List Nullish) :
    UpToNull x (unionOf (before.map Nullish.expr ++ f :: after.map Nullish.expr)) := by
  have htaken : ∀ es : List TypeExpr, (distinctBy id es).filter (!·.isNullish) =
      distinctBy id (es.filter (!·.isNullish)) :=
    filter_distinctBy fun e : TypeExpr => !e.isNullish
  rw [unionOf]
  refine upToNull_combined hx ?_
  rw [htaken, List.flatMap_append, List.flatMap_cons, List.filter_append, List.filter_append,
    flatMap_unionMembers_nullish, flatMap_unionMembers_nullish, h]
  rfl

/-- Taking out `null` and `undefined` leaves the form itself. -/
theorem UpToNull.nonNullable_eq (h : UpToNull x f) (hx : x.unionMembers = [x]) (never : TypeExpr) :
    nonNullable never f = x := by
  have hunion : unionOf [x] = x := by simp [unionOf, hx, distinctBy, combined]
  cases f with
  | union members =>
    have hkept : members.filter (!·.isNullish) = [x] := h
    rw [nonNullable, hkept]
    exact hunion
  | keyword name =>
    obtain rfl := eq_of_filter_singleton h
    have hnull : (TypeExpr.keyword name).isNullish = false := by
      simpa [unionMembers] using List.filter_eq_self.1 h
    rw [nonNullable, hnull]
    · rfl
    · simp
  | _ => exact (eq_of_filter_singleton h).symm

end TypeExpr

namespace Wrapping

open TypeExpr

/-- What a wrapped name stands for: an array, if an array type is wrapped around it, or what the name
stands for, up to `null`. -/
theorem normal?_around {names : String → Option TypeExpr} {name : String}
    (hname : names name = some (.reference name []))
    (hnull : ∀ n : Nullish, names n.name = some n.expr) (w : Wrapping) :
    ∃ f x, (w.around (.reference name [])).normal? names = some f ∧ UpToNull x f ∧
      x.unionMembers = [x] ∧
      if w.hasArray then ∃ element, x = .array element else x = .reference name [] := by
  have harray : ∀ f : TypeExpr, UpToNull (.array f) (.array f) := fun f => upToNull_self rfl rfl
  have hnulls : ∀ ns : List Nullish, ∀ es fs, normalAll? names es = some fs →
      normalAll? names (ns.map Nullish.expr ++ es) = some (ns.map Nullish.expr ++ fs) := by
    intro ns es fs hes
    induction ns with
    | nil => exact hes
    | cons n ns ih =>
      rw [List.map_cons, List.cons_append, normalAll?, ih, Nullish.expr, normal?, hnull n]
      rfl
  induction w with
  | plain => exact ⟨_, _, by rw [around, normal?] <;> simp [hname], upToNull_self rfl rfl, rfl, rfl⟩
  | array w ih =>
    obtain ⟨f, -, hf, -⟩ := ih
    exact ⟨.array f, _, by rw [around, normal?, hf]; rfl, harray f, rfl, f, rfl⟩
  | generic g w ih =>
    obtain ⟨f, -, hf, -⟩ := ih
    exact ⟨.array f, _, by rw [around, normal?, if_pos (isArrayName_text g), hf]; rfl, harray f, rfl,
      f, rfl⟩
  | parens w ih =>
    rw [around, normal?]
    exact ih
  | union before w after ih =>
    obtain ⟨f, x, hf, hx, hmembers, hkind⟩ := ih
    have hafter : normalAll? names (after.map Nullish.expr) = some (after.map Nullish.expr) := by
      simpa using hnulls after [] [] rfl
    have hall := hnulls before (w.around (.reference name []) :: after.map Nullish.expr)
      (f :: after.map Nullish.expr) (by rw [normalAll?, hf, Option.bind_some, hafter]; rfl)
    exact ⟨_, x, by rw [around, normal?, hall]; rfl, hx.union hmembers before after, hmembers, hkind⟩

end Wrapping

namespace TypeTable

variable {t : TypeTable} {timestamp : String}

/-- Field types are the same when they stand for the same. -/
theorem WellFormed.fieldType?_congr (ht : t.WellFormed) {e e' : TypeExpr}
    (h : t.fieldForm? e = t.fieldForm? e') :
    t.fieldType? timestamp e = t.fieldType? timestamp e' := by
  have hread := ht.fieldType?_readAs timestamp e
  have hread' := ht.fieldType?_readAs timestamp e'
  rw [h] at hread
  generalize t.fieldForm? e' = x at hread hread'
  generalize t.fieldType? timestamp e = a at hread ⊢
  generalize t.fieldType? timestamp e' = b at hread' ⊢
  cases hread with
  | none => cases hread'; rfl
  | some ha =>
    cases hread' with
    | some hb =>
      cases ha.twin ht ht hb with
      | leaf => rfl
      | structured hij => rw [ht.form_inj hij.left hij.right hij.form]

/-- An array is a leaf. -/
theorem WellFormed.fieldType?_of_array (ht : t.WellFormed) (timestamp : String) {e element : TypeExpr}
    (h : t.fieldForm? e = some (.array element)) :
    ∃ s, t.fieldType? timestamp e = some (.leaf (s ++ "[]")) := by
  have hread := ht.fieldType?_readAs timestamp e
  rw [h] at hread
  generalize t.fieldType? timestamp e = a at hread ⊢
  cases hread with
  | some ha =>
    cases ha with
    | leaf _ =>
      rw [text_array_grouped]
      exact ⟨_, rfl⟩

theorem not_isIdentifier_of_array (s : String) : Text.isIdentifier (s ++ "[]") = false :=
  Text.not_isIdentifier_of_mem (c := '[') (by simp) (by decide)

/-- A class or an interface is no array. -/
theorem WellFormed.fieldType?_ne_of_isIdentifier (ht : t.WellFormed) (timestamp : String)
    {name : String} (h : t.fieldForm? (.reference name []) = some (.reference name []))
    (hident : Text.isIdentifier name = true) (s : String) :
    t.fieldType? timestamp (.reference name []) ≠ some (.leaf (s ++ "[]")) := by
  intro hleaf
  have hread := ht.fieldType?_readAs timestamp (.reference name [])
  rw [h, hleaf, Option.rel_some_some] at hread
  generalize hs : s ++ "[]" = text at hread
  cases hread with
  | leaf _ =>
    have htext : s ++ "[]" = name := hs
    rw [← htext, not_isIdentifier_of_array] at hident
    cases hident

/-- What a property adds to the paths, in terms of its field type. -/
theorem fieldPaths_of_leaf {declared : TypeExpr} {s : String}
    (h : t.fieldType? timestamp declared = some (.leaf s)) (hs : s ≠ timestamp)
    (inner : TypeId → FieldPath → Entering FieldPaths) (path : FieldPath) (name : String) :
    ((fieldPaths timestamp inner path ⟨name, some declared⟩).run t).1 = [] := by
  rw [fieldType?] at h
  rw [fieldPaths, StateT.run_bind]
  generalize (classify timestamp declared).run.run t = classified at h ⊢
  obtain ⟨r, u⟩ := classified
  cases h
  show (if s = timestamp then [path ++ [name]] else []) = []
  rw [if_neg hs]

/-- What the type of a field stands for that has anything wrapped around it. -/
theorem fieldForm?_around {name : String} (hname : t.nameForm? name = some (.reference name []))
    (hnull : ∀ n : Nullish, t.nameForm? n.name = some n.expr) (w : Wrapping) :
    ∃ x, t.fieldForm? (w.around (.reference name [])) = some x ∧
      if w.hasArrayInUnion then ∃ element, x = .array element else x = .reference name [] := by
  obtain ⟨f, x, hf, hx, hmembers, hkind⟩ := w.unwrapped.normal?_around hname hnull
  rw [w.hasArray_unwrapped] at hkind
  refine ⟨x, ?_, hkind⟩
  rw [fieldForm?, w.unwrapArrays_around, hf, Option.bind_some, hx.nonNullable_eq hmembers]

/-- A class or an interface with anything around it is read like the class or the interface itself
just when no array type is inside a union.  Otherwise it is a leaf that is spelled like an array, and
a field with that type contributes no paths. -/
theorem fieldType?_around (ops : List Operation) {name : String}
    (hdeclared : ((ofOperations ops).declared? name).isSome)
    (hident : Text.isIdentifier name = true)
    (hnull : ∀ n : Nullish, (ofOperations ops).declared? n.name = none)
    (timestamp : String) (w : Wrapping) :
    let t := ofOperations ops
    let e := w.around (.reference name [])
    (t.fieldType? timestamp e = t.fieldType? timestamp (.reference name []) ↔
      w.hasArrayInUnion = false) ∧
    (w.hasArrayInUnion = true → ∃ s, t.fieldType? timestamp e = some (.leaf (s ++ "[]")) ∧
      (Text.isIdentifier timestamp = true → ∀ inner path field,
        ((fieldPaths timestamp inner path ⟨field, some e⟩).run t).1 = [])) := by
  intro t e
  have ht : t.WellFormed := wellFormed_ofOperations ops
  have hk : t.KnownPrimitives := knownPrimitives_ofOperations ops
  have hdeclared : (t.declared? name).isSome := hdeclared
  have hnull : ∀ n : Nullish, t.declared? n.name = none := hnull
  clear_value t
  have hname : t.nameForm? name = some (.reference name []) := by
    rw [nameForm?_eq ht hk, if_pos hdeclared]
  have hnames : ∀ n : Nullish, t.nameForm? n.name = some n.expr := by
    intro n
    have hprimitive : n.name ∈ primitiveNames := by cases n <;> decide
    rw [nameForm?_eq ht hk, hnull n, if_neg (by simp), if_pos hprimitive, Nullish.expr]
  obtain ⟨x, hx, hkind⟩ := fieldForm?_around hname hnames w
  obtain ⟨y, hy, hplain⟩ := fieldForm?_around hname hnames .plain
  obtain rfl : y = .reference name [] := hplain
  cases harray : w.hasArrayInUnion with
  | false =>
    rw [harray] at hkind
    obtain rfl : x = .reference name [] := hkind
    exact ⟨iff_of_true (ht.fieldType?_congr (hx.trans hy.symm)) rfl, by simp⟩
  | true =>
    rw [harray] at hkind
    obtain ⟨element, rfl⟩ := hkind
    obtain ⟨s, hs⟩ := ht.fieldType?_of_array timestamp hx
    have hne := ht.fieldType?_ne_of_isIdentifier timestamp hy hident s
    refine ⟨iff_of_false (fun h => hne (h ▸ hs)) (by simp), fun _ => ⟨s, hs, fun htime => ?_⟩⟩
    refine fieldPaths_of_leaf hs ?_
    rintro rfl
    rw [not_isIdentifier_of_array] at htime
    cases htime

/-- `(null | (Event) | undefined)[]` is read like `Event`, and `ReadonlyArray<Event> | null` is a
leaf. -/
theorem fieldType?_around_event :
    let ops : List Operation := [.declare ⟨"Event", .ofInterface, [], []⟩]
    let t := ofOperations ops
    let outside : Wrapping := .array (.union [.null] (.parens .plain) [.undefined])
    let inside : Wrapping := .union [] (.generic .readonly .plain) [.null]
    (t.declared? "Event").isSome ∧ Text.isIdentifier "Event" = true ∧
    (∀ n : Nullish, t.declared? n.name = none) ∧
    t.fieldType? "Date" (outside.around (.reference "Event" [])) = some (.structured 13) ∧
    ∃ s, t.fieldType? "Date" (inside.around (.reference "Event" [])) = some (.leaf (s ++ "[]")) := by
  intro ops t outside inside
  have hdeclared : (t.declared? "Event").isSome := by decide
  have hident : Text.isIdentifier "Event" = true := by decide
  have hnull : ∀ n : Nullish, t.declared? n.name = none := by
    intro n
    cases n <;> decide
  obtain ⟨hsame, -⟩ := fieldType?_around ops hdeclared hident hnull "Date" outside
  obtain ⟨-, hleaf⟩ := fieldType?_around ops hdeclared hident hnull "Date" inside
  obtain ⟨s, hs, -⟩ := hleaf rfl
  have hplain : t.fieldType? "Date" (.reference "Event" []) = some (.structured 13) := by
    decide +kernel
  exact ⟨hdeclared, hident, hnull, (hsame.2 rfl).trans hplain, s, hs⟩

end TypeTable

end DateFields
