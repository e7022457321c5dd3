import DateFields.Proofs.Text.Nesting
import DateFields.Proofs.TypeTable.Form
import DateFields.Text.Word

/-!
# Reading a spelling back

A type is spelled with two separators, with parentheses where one of them stands inside the other or
in front of `[]`, and with names that are identifiers.  Such a spelling can be read in one way only.

* `spelling` — the characters of an expression, unions inside intersections between parentheses;
* `Readable` — no inline object types in the expression, nothing but identifiers for names, and flat
  unions and intersections of two members or more;
* `readShape` — what an expression is on the outside, told by its spelling;
* `Readable.eq_of_spelling_eq` — readable expressions that are spelled alike are the same;
* `not_isIdentifier_array` and the like — the spelling of no combined type is an identifier.
-/

namespace DateFields

open Text

/-! ### Parentheses -/

/-- The characters between parentheses, where they are needed. -/
def enclosed (needed : Bool) (cs : List Char) : List Char :=
  if needed then '(' :: (cs ++ [')']) else cs

theorem toList_grouped (needed : Bool) (s : String) :
    (TypeTable.grouped needed s).toList = enclosed needed s.toList := by
  cases needed <;> simp [TypeTable.grouped, enclosed]

theorem closed_enclosed {sep : Char} {cs : List Char} {needed : Bool} (h : ClosedInside sep cs)
    (hclosed : needed = false → Closed sep cs) : Closed sep (enclosed needed cs) := by
  cases needed with
  | true => exact h.parens
  | false => exact hclosed rfl

/-- Parentheses are seen, unless the text without them ends in one. -/
theorem enclosed_inj {needed needed' : Bool} {cs cs' : List Char}
    (h : needed = false → cs.getLast? ≠ some ')') (h' : needed' = false → cs'.getLast? ≠ some ')')
    (heq : enclosed needed cs = enclosed needed' cs') : cs = cs' := by
  have hlast : ∀ cs : List Char, (enclosed true cs).getLast? = some ')' := by
    intro cs
    simp [enclosed, List.getLast?_cons]
  cases needed with
  | true =>
    cases needed' with
    | true => simpa [enclosed] using heq
    | false => exact absurd ((congrArg List.getLast? heq).symm.trans (hlast cs)) (h' rfl)
  | false =>
    cases needed' with
    | true => exact absurd ((congrArg List.getLast? heq).trans (hlast cs')) (h rfl)
    | false => exact heq

namespace TypeExpr

/-! ### Operators and shapes -/

/-- What stands between the members of a combined type. -/
inductive Operator where
  /-- The one of unions. -/
  | bar
  /-- The one of intersections. -/
  | ampersand

/-- The character. -/
def Operator.char : Operator → Char
  | .bar => '|'
  | .ampersand => '&'

theorem Operator.isSeparator (op : Operator) : IsSeparator op.char := by
  cases op <;> simp [IsSeparator, char]

theorem Operator.not_isNameChar (op : Operator) : isNameChar op.char = false := by
  cases op <;> decide

/-- What an expression is on the outside. -/
inductive Shape where
  /-- A name, or anything not listed here. -/
  | name
  /-- An array type. -/
  | array
  /-- A union. -/
  | union
  /-- An intersection. -/
  | intersection
  deriving DecidableEq, Repr

/-- What the expression is on the outside. -/
def shape : TypeExpr → Shape
  | .array _ => .array
  | .union _ => .union
  | .intersection _ => .intersection
  | _ => .name

/-- What an expression is on the outside, told by the characters it is spelled with. -/
def readShape (cs : List Char) : Shape :=
  if depthAfter? Operator.bar.char 0 cs = none then .union
  else if depthAfter? Operator.ampersand.char 0 cs = none then .intersection
  else if cs.getLast? = some ']' then .array
  else .name

theorem isCombination_eq_false {e : TypeExpr} :
    e.isCombination = false ↔ e.shape ≠ .union ∧ e.shape ≠ .intersection := by
  cases e <;> simp [isCombination, shape]

/-! ### Spellings -/

/-- The characters of an expression, with parentheses around the unions inside its intersections. -/
def spelling (e : TypeExpr) : List Char := e.grouped.text.toList

/-- The characters of an expression that is a member of an intersection. -/
def memberSpelling (e : TypeExpr) : List Char := enclosed (e.shape = .union) e.spelling

theorem spelling_array (e : TypeExpr) :
    (array e).spelling = enclosed e.isCombination e.spelling ++ ['[', ']'] := by
  rw [spelling, TypeTable.text_array_grouped, String.toList_append, toList_grouped]
  rfl

theorem spelling_union (members : List TypeExpr) :
    (union members).spelling = (spaced Operator.bar.char).intercalate (members.map spelling) := by
  rw [spelling, grouped, text, groupedAll_eq, textAll_eq, String.toList_intercalate, List.map_map,
    List.map_map]
  rfl

theorem toList_text_inParens (e : TypeExpr) : e.grouped.inParens.text.toList = e.memberSpelling := by
  cases e <;>
    simp [grouped, inParens, text, memberSpelling, shape, enclosed, spelling]

theorem spelling_intersection (members : List TypeExpr) :
    (intersection members).spelling =
      (spaced Operator.ampersand.char).intercalate (members.map memberSpelling) := by
  rw [spelling, grouped, text, groupedMembers_eq, textAll_eq, String.toList_intercalate,
    List.map_map, List.map_map]
  refine congrArg _ (List.map_congr_left fun e _ => ?_)
  exact toList_text_inParens e

/-! ### Readable expressions -/

/-- An expression of names, arrays, and flat unions and intersections of two members or more. -/
inductive Readable : TypeExpr → Prop
  /-- A primitive type. -/
  | keyword {name : String} (h : name ∈ TypeTable.primitiveNames) : Readable (.keyword name)
  /-- A class or an interface. -/
  | reference {name : String} (hident : isIdentifier name = true)
    (hnew : name ∉ TypeTable.primitiveNames) : Readable (.reference name [])
  /-- An array. -/
  | array {e : TypeExpr} (h : Readable e) : Readable (.array e)
  /-- A union. -/
  | union {members : List TypeExpr} (h : ∀ e ∈ members, Readable e) (hlength : 2 ≤ members.length)
    (hflat : ∀ e ∈ members, e.shape ≠ .union) : Readable (.union members)
  /-- An intersection. -/
  | intersection {members : List TypeExpr} (h : ∀ e ∈ members, Readable e)
    (hlength : 2 ≤ members.length) (hflat : ∀ e ∈ members, e.shape ≠ .intersection) :
    Readable (.intersection members)

/-- What there is to say of the separators in the spelling of an expression. -/
structure WellNested (e : TypeExpr) : Prop where
  /-- In parentheses the spelling is closed. -/
  inside : ∀ op : Operator, ClosedInside op.char e.spelling
  /-- Only in a union there is a bar outside of parentheses. -/
  bar : e.shape ≠ .union → Closed Operator.bar.char e.spelling
  /-- Only in a union or an intersection there is an ampersand outside of parentheses. -/
  ampersand : e.isCombination = false → Closed Operator.ampersand.char e.spelling

theorem isIdentifier_of_mem_primitiveNames :
    ∀ name ∈ TypeTable.primitiveNames, isIdentifier name = true := by decide

/-- Nothing in an identifier separates. -/
theorem closed_of_isIdentifier {name : String} (h : isIdentifier name = true) {sep : Char}
    (hsep : isNameChar sep = false) : Closed sep name.toList := by
  have hne : ∀ c ∈ name.toList, ∀ c', isNameChar c' = false → c ≠ c' := by
    rintro c hc _ hc' rfl
    rw [isNameChar_of_isIdentifier h hc] at hc'
    cases hc'
  exact closed_of_forall fun c hc =>
    ⟨hne c hc _ (by decide), hne c hc _ (by decide), hne c hc _ hsep⟩

theorem wellNested_of_closed {e : TypeExpr} (h : ∀ op : Operator, Closed op.char e.spelling) :
    e.WellNested :=
  ⟨fun op => (h op).inside, fun _ => h .bar, fun _ => h .ampersand⟩

theorem wellNested_of_isIdentifier {e : TypeExpr} (h : isIdentifier e.grouped.text = true) :
    e.WellNested :=
  wellNested_of_closed fun op => closed_of_isIdentifier h op.not_isNameChar

/-- The array of an expression is closed. -/
theorem WellNested.closed_array {e : TypeExpr} (h : e.WellNested) (op : Operator) :
    Closed op.char (array e).spelling := by
  have hbrackets : Closed op.char ['[', ']'] := by cases op <;> rfl
  rw [spelling_array]
  refine (closed_enclosed (h.inside op) fun hno => ?_).append hbrackets
  cases op with
  | bar => exact h.bar (isCombination_eq_false.1 hno).1
  | ampersand => exact h.ampersand hno

/-- A member of an intersection is closed. -/
theorem WellNested.closed_member {e : TypeExpr} (h : e.WellNested) (hflat : e.shape ≠ .intersection)
    (op : Operator) : Closed op.char e.memberSpelling := by
  refine closed_enclosed (h.inside op) fun hno => ?_
  have hunion : e.shape ≠ .union := by simpa using hno
  cases op with
  | bar => exact h.bar hunion
  | ampersand => exact h.ampersand (isCombination_eq_false.2 ⟨hunion, hflat⟩)

theorem Readable.wellNested {e : TypeExpr} (h : Readable e) : e.WellNested := by
  induction h with
  | keyword h => exact wellNested_of_isIdentifier (isIdentifier_of_mem_primitiveNames _ h)
  | reference hident => exact wellNested_of_isIdentifier hident
  | array _ ih => exact wellNested_of_closed ih.closed_array
  | union _ _ _ ih =>
    refine ⟨fun op => ?_, fun hno => absurd rfl hno, fun hno => by cases hno⟩
    rw [spelling_union]
    exact intercalate_induction (P := ClosedInside op.char) (fun _ => rfl)
      (closedInside_spaced op.isSeparator Operator.bar.isSeparator) ClosedInside.append
      (List.forall_mem_map.2 fun e he => (ih e he).inside op)
  | @intersection members _ _ hflat ih =>
    have hmember : ∀ op : Operator, ∀ cs ∈ members.map memberSpelling, Closed op.char cs :=
      fun op => List.forall_mem_map.2 fun e he => (ih e he).closed_member (hflat e he) op
    have hbetween : Closed Operator.bar.char (spaced Operator.ampersand.char) :=
      closed_spaced Operator.bar.isSeparator Operator.ampersand.isSeparator (by decide)
    refine ⟨fun op => ?_, fun _ => ?_, fun hno => by cases hno⟩
    · rw [spelling_intersection]
      exact intercalate_induction (P := ClosedInside op.char) (fun _ => rfl)
        (closedInside_spaced op.isSeparator Operator.ampersand.isSeparator) ClosedInside.append
        fun cs hcs => (hmember op cs hcs).inside
    · rw [spelling_intersection]
      exact intercalate_induction (P := Closed Operator.bar.char) rfl hbetween Closed.append
        (hmember .bar)

/-! ### Reading -/

/-- A text of two members or more with separators between them is not closed. -/
theorem depthAfter?_intercalate_map {sep : Char} (hsep : IsSeparator sep) {f : TypeExpr → List Char}
    {members : List TypeExpr} (hlength : 2 ≤ members.length) (h : ∀ e ∈ members, Closed sep (f e)) :
    depthAfter? sep 0 ((spaced sep).intercalate (members.map f)) = none := by
  match members, hlength with
  | e :: e' :: members, _ => exact depthAfter?_intercalate hsep (h e (by simp)) _ _

theorem getLast?_of_isIdentifier {name : String} (h : isIdentifier name = true) {c : Char}
    (hc : isNameChar c = false) : name.toList.getLast? ≠ some c := by
  intro hlast
  rw [isNameChar_of_isIdentifier h (List.mem_of_getLast? hlast)] at hc
  cases hc

theorem getLast?_spelling_array (e : TypeExpr) : (array e).spelling.getLast? = some ']' := by
  rw [spelling_array]
  simp

theorem readShape_of_isIdentifier {name : String} (h : isIdentifier name = true) :
    readShape name.toList = .name := by
  have hclosed : ∀ op : Operator, Closed op.char name.toList := fun op =>
    closed_of_isIdentifier h op.not_isNameChar
  have hlast : name.toList.getLast? ≠ some ']' := getLast?_of_isIdentifier h (by decide)
  rw [readShape, hclosed .bar, hclosed .ampersand, if_neg hlast]
  rfl

/-- The spelling shows what an expression is on the outside. -/
theorem Readable.readShape_spelling {e : TypeExpr} (h : Readable e) :
    readShape e.spelling = e.shape := by
  cases h with
  | keyword h => exact readShape_of_isIdentifier (isIdentifier_of_mem_primitiveNames _ h)
  | reference hident => exact readShape_of_isIdentifier hident
  | @array e h =>
    have hclosed := h.wellNested.closed_array
    rw [readShape, hclosed .bar, hclosed .ampersand, if_pos (getLast?_spelling_array e)]
    rfl
  | union h hlength hflat =>
    rw [readShape, spelling_union, depthAfter?_intercalate_map Operator.bar.isSeparator hlength
      fun e he => (h e he).wellNested.bar (hflat e he)]
    rfl
  | @intersection members h hlength hflat =>
    have hbar : Closed Operator.bar.char (TypeExpr.intersection members).spelling :=
      (Readable.intersection h hlength hflat).wellNested.bar (by simp [shape])
    rw [readShape, hbar, spelling_intersection, depthAfter?_intercalate_map
      Operator.ampersand.isSeparator hlength
      fun e he => (h e he).wellNested.closed_member (hflat e he) .ampersand]
    rfl

/-- What is no union and no intersection does not end in a parenthesis. -/
theorem Readable.getLast?_ne {e : TypeExpr} (h : Readable e) (hno : e.isCombination = false) :
    e.spelling.getLast? ≠ some ')' := by
  cases h with
  | keyword h => exact getLast?_of_isIdentifier (isIdentifier_of_mem_primitiveNames _ h) (by decide)
  | reference hident => exact getLast?_of_isIdentifier hident (by decide)
  | array h =>
    rw [getLast?_spelling_array]
    decide
  | union | intersection => cases hno

/-- The parentheses around a member of an intersection are seen. -/
theorem Readable.spelling_eq_of_member {e e' : TypeExpr} (h : Readable e) (h' : Readable e')
    (hflat : e.shape ≠ .intersection) (hflat' : e'.shape ≠ .intersection)
    (heq : e.memberSpelling = e'.memberSpelling) : e.spelling = e'.spelling := by
  refine enclosed_inj (fun hno => h.getLast?_ne ?_) (fun hno => h'.getLast?_ne ?_) heq
  · exact isCombination_eq_false.2 ⟨by simpa using hno, hflat⟩
  · exact isCombination_eq_false.2 ⟨by simpa using hno, hflat'⟩

/-- Members can be told from the spelling with separators between them. -/
theorem eq_of_intercalate_map_eq {sep : Char} (hsep : IsSeparator sep) {f : TypeExpr → List Char}
    {members members' : List TypeExpr} (hlength : 2 ≤ members.length)
    (hlength' : 2 ≤ members'.length) (h : ∀ e ∈ members, Closed sep (f e))
    (h' : ∀ e ∈ members', Closed sep (f e))
    (hinj : ∀ e ∈ members, ∀ e' ∈ members', f e = f e' → e = e')
    (heq : (spaced sep).intercalate (members.map f) = (spaced sep).intercalate (members'.map f)) :
    members = members' := by
  have hne : ∀ {es : List TypeExpr}, 2 ≤ es.length → es.map f ≠ [] := by
    rintro (_ | _) hes
    · simp at hes
    · simp
  refine TypeTable.eq_of_map_eq hinj (intercalate_inj hsep ?_ ?_ (hne hlength) (hne hlength') heq)
  · exact List.forall_mem_map.2 h
  · exact List.forall_mem_map.2 h'

/-- Expressions that are spelled alike are the same on the outside. -/
theorem Readable.shape_eq {e e' : TypeExpr} (h : Readable e) (h' : Readable e')
    (heq : e.spelling = e'.spelling) : e.shape = e'.shape := by
  rw [← h.readShape_spelling, heq, h'.readShape_spelling]

/-- Readable expressions that are spelled alike are the same. -/
theorem Readable.eq_of_spelling_eq {e e' : TypeExpr} (h : Readable e) (h' : Readable e')
    (heq : e.spelling = e'.spelling) : e = e' := by
  induction h generalizing e' with
  | @keyword name hname =>
    have hshape := (Readable.keyword hname).shape_eq h' heq
    cases h' with
    | keyword => exact congrArg TypeExpr.keyword (String.toList_inj.1 heq)
    | @reference name' _ hnew =>
      obtain rfl : name = name' := String.toList_inj.1 heq
      exact absurd hname hnew
    | array | union | intersection => cases hshape
  | @reference name hident hnew =>
    have hshape := (Readable.reference hident hnew).shape_eq h' heq
    cases h' with
    | @keyword name' hname =>
      obtain rfl : name = name' := String.toList_inj.1 heq
      exact absurd hname hnew
    | reference => exact congrArg (TypeExpr.reference · []) (String.toList_inj.1 heq)
    | array | union | intersection => cases hshape
  | array h ih =>
    have hshape := (Readable.array h).shape_eq h' heq
    cases h' with
    | array h' =>
      rw [spelling_array, spelling_array] at heq
      have hinner := enclosed_inj h.getLast?_ne h'.getLast?_ne (List.append_cancel_right heq)
      exact congrArg TypeExpr.array (ih h' hinner)
    | keyword | reference | union | intersection => cases hshape
  | union h hlength hflat ih =>
    have hshape := (Readable.union h hlength hflat).shape_eq h' heq
    cases h' with
    | union h' hlength' hflat' =>
      rw [spelling_union, spelling_union] at heq
      exact congrArg TypeExpr.union (eq_of_intercalate_map_eq Operator.bar.isSeparator
        hlength hlength'
        (fun e he => (h e he).wellNested.bar (hflat e he))
        (fun e he => (h' e he).wellNested.bar (hflat' e he))
        (fun e he e' he' hee => ih e he (h' e' he') hee) heq)
    | keyword | reference | array | intersection => cases hshape
  | intersection h hlength hflat ih =>
    have hshape := (Readable.intersection h hlength hflat).shape_eq h' heq
    cases h' with
    | intersection h' hlength' hflat' =>
      rw [spelling_intersection, spelling_intersection] at heq
      exact congrArg TypeExpr.intersection (eq_of_intercalate_map_eq Operator.ampersand.isSeparator
        hlength hlength' (fun e he => (h e he).wellNested.closed_member (hflat e he) .ampersand)
        (fun e he => (h' e he).wellNested.closed_member (hflat' e he) .ampersand)
        (fun e he e' he' hee => ih e he (h' e' he')
          ((h e he).spelling_eq_of_member (h' e' he') (hflat e he) (hflat' e' he') hee)) heq)
    | keyword | reference | array | union => cases hshape

/-! ### Combined types and identifiers -/

theorem not_isIdentifier_array (e : TypeExpr) : isIdentifier (array e).grouped.text = false := by
  have hbracket : '[' ∈ (array e).spelling := by
    rw [spelling_array]
    simp
  exact not_isIdentifier_of_mem hbracket (by decide)

theorem not_isIdentifier_literal (members : List Property) :
    isIdentifier (literal members).grouped.text = false := by
  refine not_isIdentifier_of_mem (c := '\x7b') ?_ (by decide)
  cases members <;> simp [grouped, text]

/-- The text of no member, or of two and more, is no identifier. -/
theorem not_isIdentifier_intercalate (op : Operator) {s : String} {texts : List (List Char)}
    (hlength : texts.length ≠ 1) (h : s.toList = (spaced op.char).intercalate texts) :
    isIdentifier s = false := by
  match texts, hlength with
  | [], _ =>
    rw [isIdentifier, h]
    rfl
  | a :: b :: texts, _ =>
    refine not_isIdentifier_of_mem (c := op.char) ?_ op.not_isNameChar
    rw [h, List.intercalate_cons_cons]
    simp [spaced]

theorem not_isIdentifier_union {members : List TypeExpr} (hlength : members.length ≠ 1) :
    isIdentifier (union members).grouped.text = false :=
  not_isIdentifier_intercalate .bar (by simpa using hlength) (spelling_union members)

theorem not_isIdentifier_intersection {members : List TypeExpr} (hlength : members.length ≠ 1) :
    isIdentifier (intersection members).grouped.text = false :=
  not_isIdentifier_intercalate .ampersand (by simpa using hlength) (spelling_intersection members)

end TypeExpr

end DateFields
