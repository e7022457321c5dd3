import DateFields.Node.Printer
import DateFields.Proofs.Node.Address
import DateFields.Proofs.Node.Replies

/-!
# Spines

An expression is printed as operators in front of a head, and accesses and arguments behind it.  The
text does not tell which of them is applied first.

* `Node.unnumbered` — the node without the numbers of its calls;
* `Node.spine` — operators, head and accesses of an expression;
* `written_spine` — the expression is printed as these are, one behind the other;
* `Node.isGrouped` — accesses bind closer than operators, and arguments belong to the nearest `new`;
* `assemble_spine` — an expression in which everything is grouped is put together again from its
  spine.
-/

namespace DateFields.Node

/-! ### Numbers of calls -/

/-- A call without its number.  Other nodes have none. -/
def withoutNumber : Node → Node
  | .call _ callee typeArgs args => .call .synthetic callee typeArgs args
  | n => n

/-- The node without the numbers of the calls in it. -/
def unnumbered : Node → Node := foldUp fun n children =>
  (n.withReplies (children.map some)).withoutNumber

theorem unnumbered_eq (n : Node) :
    n.unnumbered = (n.withReplies ((n.children.map unnumbered).map some)).withoutNumber :=
  foldUp_eq _ n

theorem unnumbered_call (id : CallId) (callee : Node) (typeArgs : List TypeExpr) (args : List Node) :
    (call id callee typeArgs args).unnumbered =
      .call .synthetic callee.unnumbered typeArgs (args.map unnumbered) := by
  have hargs := congrArg Prod.fst (mapEach_replies unnumbered args [])
  rw [List.append_nil] at hargs
  rw [unnumbered_eq, children, slots, List.map_cons, map_child_fixed]
  show call .synthetic callee.unnumbered typeArgs
    (mapEach reply args ((args.map unnumbered).map some)).1 = _
  rw [hargs]

theorem unnumbered_newObject (callee : Node) (args : List Node) :
    (newObject callee args).unnumbered = .newObject callee.unnumbered (args.map unnumbered) := by
  have hargs := congrArg Prod.fst (mapEach_replies unnumbered args [])
  rw [List.append_nil] at hargs
  rw [unnumbered_eq, children, slots, List.map_cons, map_child_fixed]
  show newObject callee.unnumbered (mapEach reply args ((args.map unnumbered).map some)).1 = _
  rw [hargs]

theorem unnumbered_conditional (condition whenTrue whenFalse : Node) :
    (conditional condition whenTrue whenFalse).unnumbered =
      .conditional condition.unnumbered whenTrue.unnumbered whenFalse.unnumbered := rfl

theorem unnumbered_binary (operator : String) (left right : Node) :
    (binary operator left right).unnumbered =
      .binary operator left.unnumbered right.unnumbered := rfl

/-! ### Operators, head and accesses -/

/-- What stands in front of an operand. -/
inductive Prefix where
  /-- `new` -/
  | new
  /-- `await` -/
  | await
  /-- An operator. -/
  | operator (o : String)

/-- What stands behind an operand. -/
inductive Suffix where
  /-- `.name` -/
  | access (name : String)
  /-- `[i]` -/
  | index (i : Node)
  /-- `(a, b)` -/
  | args (es : List Node)

/-- An expression as it is printed. -/
structure Spine where
  /-- The operators in front, the first one first. -/
  prefixes : List Prefix
  /-- What stands between operators and accesses. -/
  head : Node
  /-- The accesses and arguments behind, the last one first. -/
  suffixes : List Suffix

/-- One more operator in front. -/
def Spine.before (p : Prefix) (s : Spine) : Spine := { s with prefixes := p :: s.prefixes }

/-- One more access behind. -/
def Spine.after (x : Suffix) (s : Spine) : Spine := { s with suffixes := x :: s.suffixes }

/-- Operators, head and accesses of an expression. -/
def spine : Node → Spine
  | .propertyAccess e name =>
    if e.isLooseObject then ⟨[], e, [.access name]⟩ else e.spine.after (.access name)
  | .elementAccess e i => e.spine.after (.index i)
  | .call _ callee [] es => callee.spine.after (.args es)
  | .newObject callee es => (callee.spine.before .new).after (.args es)
  | .await e => e.spine.before .await
  | .unary o e => e.spine.before (.operator o)
  | n => ⟨[], n, []⟩

section Written

variable (depth : Nat)

/-- The characters of a node. -/
def written (n : Node) : List Char := (n.text depth).toList

/-- The characters of a node where parentheses may be needed. -/
def enclosedIf (needed : Bool) (n : Node) : List Char := (parenIf needed (n.text depth)).toList

/-- The characters of what stands in front. -/
def Prefix.written : Prefix → List Char
  | .new => "new ".toList
  | .await => "await ".toList
  | .operator o => (operatorText o).toList

/-- The characters of what stands behind. -/
def Suffix.written : Suffix → List Char
  | .access name => '.' :: name.toList
  | .index i => '[' :: i.written depth ++ [']']
  | .args es => '(' :: (commas (texts depth es)).toList ++ [')']

/-- The characters of an operand. -/
def Spine.written (s : Spine) : List Char :=
  s.prefixes.flatMap Prefix.written ++ enclosedIf depth s.head.isLooseObject s.head ++
    s.suffixes.reverse.flatMap (Suffix.written depth)

variable {depth} {p : Prefix} {x : Suffix} {s : Spine}

theorem Spine.written_before : (s.before p).written depth = p.written ++ s.written depth := by
  simp [Spine.written, Spine.before]

theorem Spine.written_after :
    (s.after x).written depth = s.written depth ++ x.written depth := by
  simp [Spine.written, Spine.after]

theorem written_propertyAccess (e : Node) (name : String) :
    (propertyAccess e name).written depth =
      enclosedIf depth e.isLooseObject e ++ (Suffix.access name).written depth := by
  simp [Node.written, text, enclosedIf, Suffix.written]

theorem written_elementAccess (e i : Node) :
    (elementAccess e i).written depth =
      enclosedIf depth e.isLoose e ++ (Suffix.index i).written depth := by
  simp [Node.written, text, enclosedIf, Suffix.written]

theorem written_call (id : CallId) (callee : Node) (es : List Node) :
    (call id callee [] es).written depth =
      enclosedIf depth callee.isLoose callee ++ (Suffix.args es).written depth := by
  simp [Node.written, text, enclosedIf, Suffix.written, textIf]

theorem written_newObject (callee : Node) (es : List Node) :
    (newObject callee es).written depth =
      Prefix.new.written ++ (enclosedIf depth callee.isLoose callee ++
        (Suffix.args es).written depth) := by
  simp [Node.written, text, enclosedIf, Suffix.written, Prefix.written]

theorem written_await (e : Node) :
    (Node.await e).written depth = Prefix.await.written ++ enclosedIf depth e.isLoose e := by
  simp [Node.written, text, enclosedIf, Prefix.written]

theorem written_unary (o : String) (e : Node) :
    (unary o e).written depth = (Prefix.operator o).written ++ enclosedIf depth e.isLoose e := by
  simp [Node.written, text, enclosedIf, Prefix.written]

theorem isLoose_of_isLooseObject {n : Node} (h : n.isLooseObject = false) : n.isLoose = false := by
  cases n <;> first | rfl | cases h

theorem isLooseObject_eq {n : Node} (hawait : ∀ e, n ≠ .await e) (hunary : ∀ o e, n ≠ .unary o e) :
    n.isLooseObject = n.isLoose := by
  cases n with
  | await e => exact absurd rfl (hawait e)
  | unary o e => exact absurd rfl (hunary o e)
  | _ => rfl

/-- An operand is printed operators first, then its head, then the accesses. -/
theorem written_spine (n : Node) : enclosedIf depth n.isLoose n = n.spine.written depth := by
  fun_induction spine n with
  | case1 e name h =>
    show (propertyAccess e name).written depth = _
    rw [written_propertyAccess, Spine.written, h]
    simp
  | case2 e name h ih =>
    have hloose : e.isLooseObject = false := by simpa using h
    rw [Spine.written_after, ← ih, isLoose_of_isLooseObject hloose, ← hloose]
    exact written_propertyAccess e name
  | case3 e i ih =>
    rw [Spine.written_after, ← ih]
    exact written_elementAccess e i
  | case4 id callee es ih =>
    rw [Spine.written_after, ← ih]
    exact written_call id callee es
  | case5 callee es ih =>
    rw [Spine.written_after, Spine.written_before, ← ih, List.append_assoc]
    exact written_newObject callee es
  | case6 e ih =>
    rw [Spine.written_before, ← ih]
    exact written_await e
  | case7 o e ih =>
    rw [Spine.written_before, ← ih]
    exact written_unary o e
  | case8 n haccess hindex hcall hnew hawait hunary =>
    simp [Spine.written, isLooseObject_eq hawait hunary]

end Written

/-! ### Grouping -/

/-- The calls whose arguments stand in the operand outside of parentheses and of brackets. -/
def openCalls : Node → Nat
  | .call _ callee [] _ => callee.openCalls + 1
  | .propertyAccess e _ => if e.isLooseObject then 0 else e.openCalls
  | .elementAccess e _ => e.openCalls
  | .await e => e.openCalls
  | .unary _ e => e.openCalls
  | _ => 0

/-- The node itself stands for what its text means: what an element is taken of or what is called has
parentheses if a property access would put them, and in the class behind a `new` nothing is called. -/
def isGrouped : Node → Bool
  | .elementAccess e _ => e.isLooseObject == e.isLoose
  | .call _ callee _ _ => callee.isLooseObject == callee.isLoose
  | .newObject callee _ => callee.openCalls == 0
  | _ => true

/-- The operator is `new`. -/
def Prefix.isNew : Prefix → Bool
  | .new => true
  | _ => false

/-- Arguments. -/
def Suffix.isArgs : Suffix → Bool
  | .args _ => true
  | _ => false

/-- The expression of some operators, a head and some accesses: the accesses bind closer, but a `new`
takes the first arguments that no `new` behind it takes. -/
def assemble (head : Node) : List Prefix → List Suffix → Node
  | .await :: ps, xs => .await (assemble head ps xs)
  | .operator o :: ps, xs => .unary o (assemble head ps xs)
  | .new :: ps, .args es :: xs =>
    if xs.countP Suffix.isArgs ≤ ps.countP Prefix.isNew then .newObject (assemble head ps xs) es
    else plainCall (assemble head (.new :: ps) xs) es
  | ps, .access name :: xs => .propertyAccess (assemble head ps xs) name
  | ps, .index i :: xs => .elementAccess (assemble head ps xs) i
  | ps, .args es :: xs => plainCall (assemble head ps xs) es
  | _, [] => head
termination_by ps xs => ps.length + xs.length

/-- Everything in the expression is grouped. -/
abbrev AllGrouped (n : Node) : Prop := Everywhere (fun m => m.isGrouped = true) [n]

/-- Behind the head, arguments stand for each `new` in front and for each open call. -/
theorem countP_isArgs {n : Node} (h : n.AllGrouped) : n.spine.suffixes.countP Suffix.isArgs =
    n.spine.prefixes.countP Prefix.isNew + n.openCalls := by
  fun_induction spine n with
  | case1 e name hloose => simp [openCalls, hloose, Suffix.isArgs]
  | case2 e name hloose ih =>
    simp [openCalls, hloose, Spine.after, Suffix.isArgs, ih (h.children.mem List.mem_cons_self)]
  | case3 e i ih =>
    simp [openCalls, Spine.after, Suffix.isArgs, ih (h.children.mem List.mem_cons_self)]
  | case4 id callee es ih =>
    simp [openCalls, Spine.after, Suffix.isArgs, ih (h.children.mem List.mem_cons_self),
      List.countP_cons, Nat.add_assoc]
  | case5 callee es ih =>
    have hopen : callee.openCalls = 0 := by simpa [isGrouped] using h.head
    simp [openCalls, hopen, Spine.after, Spine.before, Prefix.isNew, Suffix.isArgs,
      ih (h.children.mem List.mem_cons_self), List.countP_cons]
  | case6 e ih =>
    simp [openCalls, Spine.before, Prefix.isNew, ih (h.children.mem List.mem_cons_self)]
  | case7 o e ih =>
    simp [openCalls, Spine.before, Prefix.isNew, ih (h.children.mem List.mem_cons_self)]
  | case8 n haccess hindex hcall hnew hawait hunary =>
    cases n <;> simp_all [openCalls]

/-- The operators in front begin with `new`, if there are any. -/
def NewFirst (ps : List Prefix) : Prop := ps = [] ∨ ∃ ps', ps = .new :: ps'

/-- An operand that a property access does not set between parentheses of its own begins with no
operator but `new`. -/
theorem newFirst_spine {n : Node} (h : n.AllGrouped) (hsame : n.isLooseObject = n.isLoose) :
    NewFirst n.spine.prefixes := by
  fun_induction spine n with
  | case1 e name hloose => exact .inl rfl
  | case2 e name hloose ih =>
    have hfirm : e.isLooseObject = false := by simpa using hloose
    exact ih (h.children.mem List.mem_cons_self)
      (hfirm.trans (isLoose_of_isLooseObject hfirm).symm)
  | case3 e i ih =>
    exact ih (h.children.mem List.mem_cons_self) (by simpa [isGrouped] using h.head)
  | case4 id callee es ih =>
    exact ih (h.children.mem List.mem_cons_self) (by simpa [isGrouped] using h.head)
  | case5 callee es ih => exact .inr ⟨_, rfl⟩
  | case6 e ih => cases hsame
  | case7 o e ih => cases hsame
  | case8 n haccess hindex hcall hnew hawait hunary => exact .inl rfl

section Assemble

variable {head : Node} {ps : List Prefix} {xs : List Suffix}

theorem assemble_nil (h : NewFirst ps) : assemble head ps [] = head := by
  rcases h with rfl | ⟨ps, rfl⟩ <;> rw [assemble] <;> simp

theorem assemble_access (h : NewFirst ps) (name : String) :
    assemble head ps (.access name :: xs) = .propertyAccess (assemble head ps xs) name := by
  rcases h with rfl | ⟨ps, rfl⟩ <;> rw [assemble] <;> simp

theorem assemble_index (h : NewFirst ps) (i : Node) :
    assemble head ps (.index i :: xs) = .elementAccess (assemble head ps xs) i := by
  rcases h with rfl | ⟨ps, rfl⟩ <;> rw [assemble] <;> simp

theorem assemble_args (h : NewFirst ps) (hopen : ps.countP Prefix.isNew ≤ xs.countP Suffix.isArgs)
    (es : List Node) :
    assemble head ps (.args es :: xs) = plainCall (assemble head ps xs) es := by
  rcases h with rfl | ⟨ps, rfl⟩
  · rw [assemble] <;> simp
  · rw [List.countP_cons_of_pos rfl] at hopen
    rw [assemble, if_neg (by omega)]

theorem assemble_new (hclosed : xs.countP Suffix.isArgs ≤ ps.countP Prefix.isNew) (es : List Node) :
    assemble head (.new :: ps) (.args es :: xs) = .newObject (assemble head ps xs) es := by
  rw [assemble, if_pos hclosed]

end Assemble

/-- What stands behind without the numbers of calls. -/
def Suffix.unnumbered : Suffix → Suffix
  | .access name => .access name
  | .index i => .index i.unnumbered
  | .args es => .args (es.map Node.unnumbered)

/-- The spine without the numbers of calls. -/
def Spine.unnumbered (s : Spine) : Spine :=
  ⟨s.prefixes, s.head.unnumbered, s.suffixes.map Suffix.unnumbered⟩

theorem Spine.countP_unnumbered (s : Spine) :
    s.unnumbered.suffixes.countP Suffix.isArgs = s.suffixes.countP Suffix.isArgs := by
  rw [Spine.unnumbered, List.countP_map]
  congr 1
  funext x
  cases x <;> rfl

/-- The expression that a spine stands for when everything is grouped. -/
def Spine.assemble (s : Spine) : Node := Node.assemble s.head s.prefixes s.suffixes

/-- An expression in which everything is grouped is found again in its spine. -/
theorem assemble_spine {n : Node} (h : n.AllGrouped) :
    n.spine.unnumbered.assemble = n.unnumbered := by
  fun_induction spine n with
  | case1 e name hloose =>
    have hnone : NewFirst [] := .inl rfl
    exact (assemble_access hnone name).trans (congrArg (propertyAccess · name) (assemble_nil hnone))
  | case2 e name hloose ih =>
    have hfirm : e.isLooseObject = false := by simpa using hloose
    have he : e.AllGrouped := h.children.mem List.mem_cons_self
    have hfirst := newFirst_spine he (hfirm.trans (isLoose_of_isLooseObject hfirm).symm)
    exact (assemble_access hfirst name).trans (congrArg (propertyAccess · name) (ih he))
  | case3 e i ih =>
    have he : e.AllGrouped := h.children.mem List.mem_cons_self
    have hfirst := newFirst_spine he (by simpa [isGrouped] using h.head)
    exact (assemble_index hfirst i.unnumbered).trans (congrArg (elementAccess · _) (ih he))
  | case4 id callee es ih =>
    have he : callee.AllGrouped := h.children.mem List.mem_cons_self
    have hfirst := newFirst_spine he (by simpa [isGrouped] using h.head)
    have hopen : callee.spine.prefixes.countP Prefix.isNew ≤
        callee.spine.unnumbered.suffixes.countP Suffix.isArgs := by
      rw [Spine.countP_unnumbered, countP_isArgs he]
      omega
    rw [unnumbered_call]
    exact (assemble_args hfirst hopen _).trans (congrArg (plainCall · _) (ih he))
  | case5 callee es ih =>
    have he : callee.AllGrouped := h.children.mem List.mem_cons_self
    have hnone : callee.openCalls = 0 := by simpa [isGrouped] using h.head
    have hclosed : callee.spine.unnumbered.suffixes.countP Suffix.isArgs ≤
        callee.spine.prefixes.countP Prefix.isNew := by
      rw [Spine.countP_unnumbered, countP_isArgs he, hnone]
      exact Nat.le_refl _
    rw [unnumbered_newObject]
    exact (assemble_new hclosed _).trans (congrArg (newObject · _) (ih he))
  | case6 e ih =>
    show Node.assemble _ (.await :: _) _ = _
    rw [Node.assemble]
    exact congrArg Node.await (ih (h.children.mem List.mem_cons_self))
  | case7 o e ih =>
    show Node.assemble _ (.operator o :: _) _ = _
    rw [Node.assemble]
    exact congrArg (unary o) (ih (h.children.mem List.mem_cons_self))
  | case8 n haccess hindex hcall hnew hawait hunary => exact assemble_nil (.inl rfl)

end DateFields.Node
