/-!
# Type expressions

The types that a program spells out: the declared type of a property, the type argument of a call.

* `TypeExpr` — a type expression, and `Property` — a name with the type declared for it;
* `TypeExpr.text` — its spelling in the program;
* `TypeExpr.unwrapArrays` — the element type under any number of array types and parentheses;
* equality is decidable (`TypeExpr.beq_iff`).
-/

namespace DateFields

/-- A named member with its declared type, if one is declared. -/
structure PropertyOf (α : Type) where
  /-- The name of the member. -/
  name : String
  /-- Its declared type. -/
  type : Option α

/-- A type expression. -/
inductive TypeExpr where
  /-- `T[]` -/
  | array (element : TypeExpr)
  /-- `Name` or `Name<A, B>` -/
  | reference (name : String) (args : List TypeExpr)
  /-- `A | B` -/
  | union (members : List TypeExpr)
  /-- `A & B` -/
  | intersection (members : List TypeExpr)
  /-- An inline object type: members between braces. -/
  | literal (members : List (PropertyOf TypeExpr))
  /-- `(T)` -/
  | parenthesized (inner : TypeExpr)
  /-- `string`, `null` and the like. -/
  | keyword (name : String)
  /-- A type without structure of interest.  It stands for no type of the table. -/
  | other (text : String)
  deriving Inhabited

/-- A member of an interface, a class or an inline object type. -/
abbrev Property := PropertyOf TypeExpr

namespace TypeExpr

/-! ### Spelling -/

/-- A union or an intersection: it needs parentheses in front of `[]`. -/
def isCombination : TypeExpr → Bool
  | .union _ => true
  | .intersection _ => true
  | _ => false

mutual

/-- The spelling of a type expression. -/
def text : TypeExpr → String
  | .array e => (if e.isCombination then "(" ++ e.text ++ ")" else e.text) ++ "[]"
  | .reference name [] => name
  | .reference name args => name ++ "<" ++ textAll ", " args ++ ">"
  | .union members => textAll " | " members
  | .intersection members => textAll " & " members
  | .literal [] => "\x7b\x7d"
  | .literal members => "\x7b " ++ textMembers members ++ " \x7d"
  | .parenthesized inner => "(" ++ inner.text ++ ")"
  | .keyword name => name
  | .other t => t

/-- Spellings with a separator between them. -/
def textAll (separator : String) : List TypeExpr → String
  | [] => ""
  | [t] => t.text
  | t :: ts => t.text ++ separator ++ textAll separator ts

/-- The spelling of one member. -/
def textMember : Property → String
  | ⟨name, none⟩ => name
  | ⟨name, some t⟩ => name ++ ": " ++ t.text

/-- Members with semicolons between them. -/
def textMembers : List Property → String
  | [] => ""
  | [m] => textMember m
  | m :: ms => textMember m ++ "; " ++ textMembers ms

end

theorem textAll_eq (separator : String) (es : List TypeExpr) :
    textAll separator es = separator.intercalate (es.map text) := by
  induction es with
  | nil => rfl
  | cons e es ih =>
    cases es with
    | nil => simp [textAll]
    | cons e' es => simp only [textAll, ih, List.map_cons, String.intercalate_cons_cons]

/-! ### Arrays -/

/-- The generic names of array types. -/
def isArrayName (name : String) : Bool := name == "Array" || name == "ReadonlyArray"

/-- The type under all array types and parentheses around it. -/
def unwrapArrays : TypeExpr → TypeExpr
  | .array e => e.unwrapArrays
  | .parenthesized inner => inner.unwrapArrays
  | .reference name [e] => if isArrayName name then e.unwrapArrays else .reference name [e]
  | t => t

/-! ### Equality -/

mutual

/-- Equality of type expressions. -/
def beq : TypeExpr → TypeExpr → Bool
  | .array a, .array b => beq a b
  | .reference n as, .reference m bs => n == m && beqAll as bs
  | .union as, .union bs => beqAll as bs
  | .intersection as, .intersection bs => beqAll as bs
  | .literal as, .literal bs => beqMembers as bs
  | .parenthesized a, .parenthesized b => beq a b
  | .keyword n, .keyword m => n == m
  | .other s, .other t => s == t
  | _, _ => false

/-- Equality of lists of type expressions. -/
def beqAll : List TypeExpr → List TypeExpr → Bool
  | [], [] => true
  | a :: as, b :: bs => beq a b && beqAll as bs
  | _, _ => false

/-- Equality of members. -/
def beqMember : Property → Property → Bool
  | ⟨n, none⟩, ⟨m, none⟩ => n == m
  | ⟨n, some a⟩, ⟨m, some b⟩ => n == m && beq a b
  | _, _ => false

/-- Equality of lists of members. -/
def beqMembers : List Property → List Property → Bool
  | [], [] => true
  | a :: as, b :: bs => beqMember a b && beqMembers as bs
  | _, _ => false

end

mutual

theorem beq_iff : ∀ a b : TypeExpr, beq a b = true ↔ a = b
  | .array a, b => by cases b <;> simp [beq, beq_iff a]
  | .reference n as, b => by cases b <;> simp [beq, beqAll_iff as]
  | .union as, b => by cases b <;> simp [beq, beqAll_iff as]
  | .intersection as, b => by cases b <;> simp [beq, beqAll_iff as]
  | .literal as, b => by cases b <;> simp [beq, beqMembers_iff as]
  | .parenthesized a, b => by cases b <;> simp [beq, beq_iff a]
  | .keyword n, b => by cases b <;> simp [beq]
  | .other s, b => by cases b <;> simp [beq]

theorem beqAll_iff : ∀ as bs : List TypeExpr, beqAll as bs = true ↔ as = bs
  | [], bs => by cases bs <;> simp [beqAll]
  | a :: as, bs => by cases bs <;> simp [beqAll, beq_iff a, beqAll_iff as]

theorem beqMember_iff : ∀ a b : Property, beqMember a b = true ↔ a = b
  | ⟨n, none⟩, ⟨m, t⟩ => by cases t <;> simp [beqMember]
  | ⟨n, some a⟩, ⟨m, t⟩ => by cases t <;> simp [beqMember, beq_iff a]

theorem beqMembers_iff : ∀ as bs : List Property, beqMembers as bs = true ↔ as = bs
  | [], bs => by cases bs <;> simp [beqMembers]
  | a :: as, bs => by cases bs <;> simp [beqMembers, beqMember_iff a, beqMembers_iff as]

end

instance : DecidableEq TypeExpr := fun a b => decidable_of_iff _ (beq_iff a b)

instance : DecidableEq Property := fun a b => decidable_of_iff _ (beqMember_iff a b)

end TypeExpr

end DateFields
