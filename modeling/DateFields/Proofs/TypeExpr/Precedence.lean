import DateFields.Proofs.TypeExpr.Spelling

/-!
# Which member binds to what

In the text of an expression an array type binds closer than `&`, and `&` closer than `|`.  The text
puts parentheses around a combination in front of `[]`, but none around a union that is a member of
an intersection, so that what is written there binds to something else.

* `Simple` — names, arrays, parentheses, and combinations of one member at least;
* `barred` — a bar is written outside of all parentheses;
* `mixed` — somewhere in the expression a member of an intersection is barred;
* `pieces` — what an operator separates on the outside of an expression;
* `Simple.written_eq` — the text is that of the pieces, with the operator in between;
* `Simple.piece_bar`, `Simple.piece_ampersand` — where nothing is mixed, bars separate what is not
  barred, and ampersands separate what is no combination.
-/

namespace DateFields.TypeExpr

open Text

/-! ### Combinations -/

deriving instance DecidableEq for Operator

/-- The members combined. -/
def Operator.combination : Operator → List TypeExpr → TypeExpr
  | .bar => .union
  | .ampersand => .intersection

/-- An expression of names, arrays, parentheses, and combinations that are not empty. -/
inductive Simple : TypeExpr → Prop
  /-- A keyword. -/
  | keyword {name : String} (h : isIdentifier name = true) : Simple (.keyword name)
  /-- A name without arguments. -/
  | reference {name : String} (h : isIdentifier name = true) : Simple (.reference name [])
  /-- An array. -/
  | array {e : TypeExpr} (h : Simple e) : Simple (.array e)
  /-- An expression between parentheses. -/
  | parenthesized {e : TypeExpr} (h : Simple e) : Simple (.parenthesized e)
  /-- A union or an intersection, of one member at least. -/
  | combination (op : Operator) {members : List TypeExpr} (hne : members ≠ [])
    (h : ∀ e ∈ members, Simple e) : Simple (op.combination members)

/-- The characters of the text of an expression. -/
def written (e : TypeExpr) : List Char := e.text.toList

theorem length_enclosed (cs : List Char) : (enclosed true cs).length = cs.length + 2 :=
  congrArg (· + 1) List.length_append

theorem written_parenthesized (e : TypeExpr) :
    (parenthesized e).written = enclosed true e.written := by
  simp [written, text, enclosed]

/-- The element of an array as it is written: a combination stands between parentheses. -/
def operand (e : TypeExpr) : TypeExpr := if e.isCombination then .parenthesized e else e

theorem written_array (e : TypeExpr) : (array e).written = e.operand.written ++ ['[', ']'] := by
  rw [written, text, operand, String.toList_append]
  cases e.isCombination <;> simp [written, text]

theorem simple_operand {e : TypeExpr} (h : e.Simple) : e.operand.Simple := by
  rw [operand]
  split
  · exact .parenthesized h
  · exact h

theorem written_combination (op : Operator) (members : List TypeExpr) :
    (op.combination members).written =
      (spaced op.char).intercalate (members.map written) := by
  cases op <;>
    rw [written, Operator.combination, text, textAll_eq, String.toList_intercalate,
      List.map_map] <;>
    rfl

/-! ### Where a bar is written -/

mutual

/-- A bar is written in the expression outside of all parentheses. -/
def barred : TypeExpr → Bool
  | .union members => members.length ≠ 1 || barredAny members
  | .intersection members => barredAny members
  | _ => false

/-- One of the expressions is barred. -/
def barredAny : List TypeExpr → Bool
  | [] => false
  | e :: es => e.barred || barredAny es

end

mutual

/-- Somewhere in the expression an intersection of several members has one that is barred. -/
def mixed : TypeExpr → Bool
  | .array e => e.mixed
  | .parenthesized e => e.mixed
  | .union members => mixedAny members
  | .intersection members => members.length ≠ 1 && barredAny members || mixedAny members
  | _ => false

/-- One of the expressions is mixed. -/
def mixedAny : List TypeExpr → Bool
  | [] => false
  | e :: es => e.mixed || mixedAny es

end

theorem barredAny_eq_false {es : List TypeExpr} :
    barredAny es = false ↔ ∀ e ∈ es, e.barred = false := by
  induction es with
  | nil => simp [barredAny]
  | cons e es ih => simp [barredAny, ih]

theorem mixedAny_eq_false {es : List TypeExpr} :
    mixedAny es = false ↔ ∀ e ∈ es, e.mixed = false := by
  induction es with
  | nil => simp [mixedAny]
  | cons e es ih => simp [mixedAny, ih]

theorem mixed_operand (e : TypeExpr) : e.operand.mixed = e.mixed := by
  rw [operand]
  split
  · rw [mixed]
  · rfl

/-! ### Pieces -/

section Pieces

variable (op : Operator)

mutual

/-- What an operator separates on the outside of an expression.  A combination of one member is seen
through, for no operator is written in it. -/
def pieces : TypeExpr → List TypeExpr
  | .union members =>
    if members.length = 1 ∨ op = .bar then piecesAll members else [.union members]
  | .intersection members =>
    if members.length = 1 ∨ op = .ampersand then piecesAll members else [.intersection members]
  | e => [e]

/-- The pieces of several expressions. -/
def piecesAll : List TypeExpr → List TypeExpr
  | [] => []
  | e :: es => pieces e ++ piecesAll es

end

theorem barred_combination (members : List TypeExpr) : (op.combination members).barred =
    ((op = .bar && members.length ≠ 1) || barredAny members) := by
  cases op <;> simp [Operator.combination, barred]

theorem mixed_combination (members : List TypeExpr) : (op.combination members).mixed =
    ((op = .ampersand && members.length ≠ 1 && barredAny members) || mixedAny members) := by
  cases op <;> simp [Operator.combination, mixed]

theorem isCombination_combination (members : List TypeExpr) :
    (op.combination members).isCombination = true := by
  cases op <;> rfl

theorem piecesAll_eq (es : List TypeExpr) : piecesAll op es = es.flatMap (pieces op) := by
  induction es with
  | nil => rfl
  | cons e es ih => rw [piecesAll, ih, List.flatMap_cons]

theorem pieces_combination (op' : Operator) (members : List TypeExpr) :
    (op'.combination members).pieces op =
      if members.length = 1 ∨ op = op' then members.flatMap (pieces op)
      else [op'.combination members] := by
  rw [← piecesAll_eq]
  cases op' <;> rfl

end Pieces

variable {op : Operator} {e p q : TypeExpr}

theorem Simple.pieces_ne_nil (h : e.Simple) (op : Operator) : e.pieces op ≠ [] := by
  induction h with
  | combination op' hne h ih =>
    rw [pieces_combination]
    split
    · obtain ⟨e, he⟩ := List.exists_mem_of_ne_nil _ hne
      rw [Ne, List.flatMap_eq_nil_iff]
      exact fun hnil => ih e he (hnil e he)
    · simp
  | _ => simp [pieces]

/-- The text of an expression is that of its pieces, with the operator in between. -/
theorem Simple.written_eq (h : e.Simple) (op : Operator) :
    e.written = (spaced op.char).intercalate ((e.pieces op).map written) := by
  induction h with
  | @combination op' members _ h ih =>
    rw [pieces_combination]
    split
    · rename_i hsame
      have hgroups : (spaced op.char).intercalate ((members.flatMap (pieces op)).map written) =
          (spaced op.char).intercalate (members.map written) := by
        rw [List.map_flatMap, intercalate_flatMap, List.map_congr_left ih]
        exact fun e he => by simpa using (h e he).pieces_ne_nil op
      rw [hgroups, written_combination]
      rcases hsame with hone | rfl
      · obtain ⟨m, rfl⟩ := List.length_eq_one_iff.1 hone
        simp
      · rfl
    · simp
  | _ => simp [pieces]

/-- No piece is longer than the expression. -/
theorem Simple.length_le_of_mem_pieces (h : e.Simple) (hp : p ∈ e.pieces op) :
    p.written.length ≤ e.written.length := by
  rw [h.written_eq op]
  exact length_le_intercalate (List.mem_map_of_mem hp)

/-- In the text of a simple expression all parentheses are closed, and separators stand outside of
them only in a combination. -/
theorem Simple.closed (h : e.Simple) : (∀ op : Operator, ClosedInside op.char e.written) ∧
    (e.isCombination = false → ∀ op : Operator, Closed op.char e.written) := by
  have hclosed : ∀ {e : TypeExpr}, (∀ op : Operator, Closed op.char e.written) →
      (∀ op : Operator, ClosedInside op.char e.written) ∧
      (e.isCombination = false → ∀ op : Operator, Closed op.char e.written) :=
    fun h => ⟨fun op => (h op).inside, fun _ => h⟩
  have hparens : ∀ {e : TypeExpr}, (∀ op : Operator, ClosedInside op.char e.written) →
      ∀ op : Operator, Closed op.char (TypeExpr.parenthesized e).written := by
    intro e h op
    rw [written_parenthesized]
    exact (h op).parens
  induction h with
  | keyword h => exact hclosed fun op => closed_of_isIdentifier h op.not_isNameChar
  | reference h => exact hclosed fun op => closed_of_isIdentifier h op.not_isNameChar
  | @array e _ ih =>
    refine hclosed fun op => ?_
    have hbrackets : Closed op.char ['[', ']'] := by cases op <;> rfl
    rw [written_array, operand]
    refine Closed.append ?_ hbrackets
    split
    · exact hparens ih.1 op
    · rename_i hno
      exact ih.2 (by simpa using hno) op
  | parenthesized _ ih => exact hclosed (hparens ih.1)
  | combination op' _ _ ih =>
    refine ⟨fun op => ?_, fun hno => by simp [isCombination_combination] at hno⟩
    rw [written_combination]
    exact intercalate_induction (P := ClosedInside op.char) (fun _ => rfl)
      (closedInside_spaced op.isSeparator op'.isSeparator) ClosedInside.append
      (List.forall_mem_map.2 fun e he => (ih e he).1 op)

/-- A simple expression that is no combination is a name, an array or between parentheses. -/
theorem Simple.cases_of_not_isCombination (h : e.Simple) (hno : e.isCombination = false) :
    (∃ name, isIdentifier name = true ∧ (e = .keyword name ∨ e = .reference name [])) ∨
    (∃ element : TypeExpr, element.Simple ∧ e = .array element) ∨
    ∃ inner : TypeExpr, inner.Simple ∧ e = .parenthesized inner := by
  cases h with
  | @keyword name h => exact .inl ⟨name, h, .inl rfl⟩
  | @reference name h => exact .inl ⟨name, h, .inr rfl⟩
  | array h => exact .inr (.inl ⟨_, h, rfl⟩)
  | parenthesized h => exact .inr (.inr ⟨_, h, rfl⟩)
  | combination op => simp [isCombination_combination] at hno

theorem written_of_name {name : String} (h : e = .keyword name ∨ e = .reference name []) :
    e.written = name.toList := by
  rcases h with rfl | rfl <;> simp [written, text]

theorem getLast?_written_array (e : TypeExpr) : (array e).written.getLast? = some ']' := by
  simp [written_array]

theorem getLast?_written_parenthesized (e : TypeExpr) :
    (parenthesized e).written.getLast? = some ')' := by
  simp [written_parenthesized, enclosed, List.getLast?_cons]

/-! ### Where nothing is mixed -/

/-- Bars separate expressions that are not barred. -/
theorem Simple.piece_bar (h : e.Simple) (hmixed : e.mixed = false) :
    ∀ p ∈ e.pieces .bar, p.Simple ∧ p.mixed = false ∧ p.barred = false := by
  induction h with
  | @combination op members hne h ih =>
    have hself := hmixed
    rw [mixed_combination, Bool.or_eq_false_iff, mixedAny_eq_false] at hmixed
    rw [pieces_combination]
    split
    · intro p hp
      obtain ⟨m, hm, hp⟩ := List.mem_flatMap.1 hp
      exact ih m hm (hmixed.2 m hm) p hp
    · rename_i hno
      obtain ⟨hone, hne'⟩ := not_or.1 hno
      cases op with
      | bar => exact absurd rfl hne'
      | ampersand =>
        rw [List.forall_mem_singleton, barred_combination]
        refine ⟨.combination .ampersand hne h, hself, ?_⟩
        simpa [hone] using hmixed.1
  | keyword h => simp [pieces, Simple.keyword h, mixed, barred]
  | reference h => simp [pieces, Simple.reference h, mixed, barred]
  | array h => simpa [pieces, Simple.array h, barred] using hmixed
  | parenthesized h => simpa [pieces, Simple.parenthesized h, barred] using hmixed

/-- Ampersands separate the parts of what is not barred into expressions that are no
combinations. -/
theorem Simple.piece_ampersand (h : e.Simple) (hmixed : e.mixed = false)
    (hbarred : e.barred = false) :
    ∀ p ∈ e.pieces .ampersand, p.Simple ∧ p.mixed = false ∧ p.isCombination = false := by
  induction h with
  | @combination op members hne h ih =>
    rw [mixed_combination, Bool.or_eq_false_iff, mixedAny_eq_false] at hmixed
    rw [barred_combination, Bool.or_eq_false_iff, barredAny_eq_false] at hbarred
    have hthrough : members.length = 1 ∨ Operator.ampersand = op := by
      cases op with
      | bar => exact .inl (by simpa using hbarred.1)
      | ampersand => exact .inr rfl
    rw [pieces_combination, if_pos hthrough]
    intro p hp
    obtain ⟨m, hm, hp⟩ := List.mem_flatMap.1 hp
    exact ih m hm (hmixed.2 m hm) (hbarred.2 m hm) p hp
  | keyword h => simp [pieces, Simple.keyword h, mixed, isCombination]
  | reference h => simp [pieces, Simple.reference h, mixed, isCombination]
  | array h => simpa [pieces, Simple.array h, isCombination] using hmixed
  | parenthesized h => simpa [pieces, Simple.parenthesized h, isCombination] using hmixed

/-- What is not barred has no bar outside of parentheses. -/
theorem Simple.closed_bar (h : e.Simple) (hmixed : e.mixed = false) (hbarred : e.barred = false) :
    Closed Operator.bar.char e.written := by
  have hbetween : Closed Operator.bar.char (spaced Operator.ampersand.char) :=
    closed_spaced Operator.bar.isSeparator Operator.ampersand.isSeparator (by decide)
  rw [h.written_eq .ampersand]
  refine intercalate_induction (P := Closed Operator.bar.char) rfl hbetween Closed.append
    (List.forall_mem_map.2 fun p hp => ?_)
  obtain ⟨hp, -, hno⟩ := h.piece_ampersand hmixed hbarred p hp
  exact hp.closed.2 hno .bar

end DateFields.TypeExpr
