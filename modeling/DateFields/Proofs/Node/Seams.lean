import DateFields.Proofs.Node.Spine
import DateFields.Text.Split

/-!
# Where an expression begins and ends

* `Node.isPlain` — names, accesses, calls, `new`, `await`, `?:`, `!` and `+`;
* `Clear.spine` — what the spine of a plain expression is made of;
* `Ends` — what may stand behind an expression or an operand, so that it does not go on there;
* `Clear.written_eq` — an expression is an operand and what stands behind it;
* `Clear.opening` — the character an expression begins with.
-/

namespace DateFields.Node

open Text

/-! ### Plain expressions -/

/-- A character that stands behind a name, not in it. -/
def endsName (c : Char) : Bool := ['.', '[', ']', '(', ')', ',', ' '].contains c

/-- The node itself is a name, an access, a call without type arguments, `new`, `await`, `?:`, `!` or
`+`. -/
def isPlain : Node → Bool
  | .identifier name => isIdentifier name
  | .propertyAccess _ name => name.toList.all (!endsName ·)
  | .elementAccess _ _ => true
  | .call _ _ typeArgs _ => typeArgs.isEmpty
  | .newObject _ _ => true
  | .await _ => true
  | .conditional _ _ _ => true
  | .binary o _ _ => o == "+"
  | .unary o _ => o == "!"
  | _ => false

/-- Everything in the expression is plain and grouped. -/
def Clear (n : Node) : Prop := Everywhere (fun m => m.isPlain = true ∧ m.isGrouped = true) [n]

/-! ### Spines of plain expressions -/

/-- What stands behind an operand in a plain expression. -/
def Suffix.Clear : Suffix → Prop
  | .access name => ∀ c ∈ name.toList, endsName c = false
  | .index i => Node.Clear i
  | .args es => ∀ e ∈ es, Node.Clear e

/-- The operators of plain expressions. -/
def Prefix.Clear (p : Prefix) : Prop := p = .new ∨ p = .await ∨ p = .operator "!"

/-- A spine as plain expressions have it. -/
structure Spine.Clear (s : Spine) : Prop where
  /-- The operators are `new`, `await` and `!`. -/
  prefixes : ∀ p ∈ s.prefixes, p.Clear
  /-- The head is a name, or stands between parentheses. -/
  head : (∃ name, isIdentifier name = true ∧ s.head = .identifier name) ∨
    s.head.isLooseObject = true ∧ Node.Clear s.head
  /-- The accesses are those of plain expressions. -/
  suffixes : ∀ x ∈ s.suffixes, x.Clear

theorem Clear.child {n c : Node} (h : n.Clear) (hc : c ∈ n.children) : c.Clear := h.children.mem hc

theorem Spine.Clear.before {s : Spine} (h : s.Clear) {p : Prefix} (hp : p.Clear) :
    (s.before p).Clear :=
  ⟨List.forall_mem_cons.2 ⟨hp, h.prefixes⟩, h.head, h.suffixes⟩

theorem Spine.Clear.after {s : Spine} (h : s.Clear) {x : Suffix} (hx : x.Clear) :
    (s.after x).Clear :=
  ⟨h.prefixes, h.head, List.forall_mem_cons.2 ⟨hx, h.suffixes⟩⟩

/-- A head between parentheses. -/
theorem Clear.spine_head {n : Node} (h : n.Clear) (hloose : n.isLooseObject = true) :
    Spine.Clear ⟨[], n, []⟩ :=
  ⟨by simp, .inr ⟨hloose, h⟩, by simp⟩

theorem Clear.spine {n : Node} (h : n.Clear) : n.spine.Clear := by
  have hplain := h.head.1
  fun_induction Node.spine n with
  | case1 e name hloose =>
    have he : e.Clear := h.child List.mem_cons_self
    exact (he.spine_head hloose).after (by simpa [isPlain, Suffix.Clear] using hplain)
  | case2 e name hloose ih =>
    have he : e.Clear := h.child List.mem_cons_self
    exact (ih he he.head.1).after (by simpa [isPlain, Suffix.Clear] using hplain)
  | case3 e i ih =>
    have he : e.Clear := h.child List.mem_cons_self
    have hi : i.Clear := h.child (by simp [children, slots, Slot.fixed])
    exact (ih he he.head.1).after hi
  | case4 id callee es ih =>
    have he : callee.Clear := h.child List.mem_cons_self
    have hes : ∀ e ∈ es, e.Clear := fun e he => h.child (by simp [children, slots, Slot.fixed, he])
    exact (ih he he.head.1).after hes
  | case5 callee es ih =>
    have he : callee.Clear := h.child List.mem_cons_self
    have hes : ∀ e ∈ es, e.Clear := fun e he => h.child (by simp [children, slots, Slot.fixed, he])
    exact ((ih he he.head.1).before (.inl rfl)).after hes
  | case6 e ih =>
    have he : e.Clear := h.child List.mem_cons_self
    exact (ih he he.head.1).before (.inr (.inl rfl))
  | case7 o e ih =>
    have he : e.Clear := h.child List.mem_cons_self
    have ho : o = "!" := by simpa [isPlain] using hplain
    exact (ih he he.head.1).before (.inr (.inr (by rw [ho])))
  | case8 n haccess hindex hcall hnew hawait hunary =>
    cases n with
    | identifier name => exact ⟨by simp, .inl ⟨name, hplain, rfl⟩, by simp⟩
    | conditional c a b => exact h.spine_head rfl
    | binary o l r => exact h.spine_head rfl
    | _ => simp_all [isPlain]

/-! ### Seams -/

/-- What may stand behind an expression: nothing, a bracket that closes, a comma, or a blank and one
of the given characters. -/
inductive Ends (marks : List Char) : List Char → Prop
  /-- Nothing. -/
  | nil : Ends marks []
  /-- A bracket or a comma. -/
  | close {c : Char} (h : c ∈ [')', ']', ',']) (cs : List Char) : Ends marks (c :: cs)
  /-- A blank and a mark. -/
  | blank {c : Char} (h : c ∈ marks) (cs : List Char) : Ends marks (' ' :: c :: cs)

/-- The marks behind an expression that stands between brackets or commas, or in the middle of a
conditional. -/
def outerMarks : List Char := [':']

/-- The marks behind an operand. -/
def operandMarks : List Char := [':', '?', '+']

/-- A character that an expression may begin with. -/
def opens (c : Char) : Bool := c == '!' || c == '(' || isNameChar c

variable {marks cs ds : List Char} {c : Char}

theorem Ends.mono {marks' : List Char} (h : Ends marks cs) (hsub : marks ⊆ marks') : Ends marks' cs := by
  cases h with
  | nil => exact .nil
  | close h cs => exact .close h cs
  | blank h cs => exact .blank (hsub h) cs

theorem Ends.operand (h : Ends outerMarks cs) : Ends operandMarks cs := h.mono (by decide)

theorem Ends.endsName (h : Ends marks cs) : ∀ c ∈ cs.head?, endsName c = true := by
  cases h with
  | nil => simp
  | @close c h cs =>
    have hall : [')', ']', ','].all Node.endsName = true := by decide
    simpa using List.all_eq_true.1 hall c h
  | blank h cs => simp; decide

/-- Behind an expression no access goes on. -/
theorem Ends.not_access (h : Ends marks cs) : ∀ c ∈ cs.head?, c ∉ ['.', '[', '('] := by
  cases h with
  | nil => simp
  | @close c h cs =>
    have hall : [')', ']', ','].all (fun c => !(['.', '[', '('].contains c)) = true := by decide
    simpa using List.all_eq_true.1 hall c h
  | blank h cs => simp

/-- Behind an operand no expression begins after a blank. -/
theorem Ends.not_opens (h : Ends operandMarks (' ' :: c :: cs)) : opens c = false := by
  cases h with
  | close h => simp at h
  | blank h =>
    have hall : operandMarks.all (!opens ·) = true := by decide
    simpa using List.all_eq_true.1 hall c h

theorem endsName_eq_false_of_isIdentifier {name : String} (h : isIdentifier name = true) :
    ∀ c ∈ name.toList, endsName c = false := by
  intro c hc
  have hall : ['.', '[', ']', '(', ')', ',', ' '].all (!isNameChar ·) = true := by decide
  rw [← Bool.not_eq_true]
  intro h'
  have hno := List.all_eq_true.1 hall c (by simpa [endsName] using h')
  rw [isNameChar_of_isIdentifier h hc] at hno
  cases hno

/-! ### Operand and operators -/

/-- The operand that an expression begins with. -/
def lead : Node → Node
  | .conditional condition _ _ => condition
  | .binary _ left _ => left
  | n => n

/-- The characters behind the operand that an expression begins with. -/
def tailWritten (depth : Nat) : Node → List Char
  | .conditional _ a b => ' ' :: '?' :: ' ' :: a.written depth ++ ' ' :: ':' :: ' ' :: b.written depth
  | .binary o _ right => ' ' :: o.toList ++ ' ' :: enclosedIf depth right.isLoose right
  | _ => []

theorem Clear.lead {n : Node} (h : n.Clear) : n.lead.Clear := by
  cases n <;> first | exact h | exact h.child List.mem_cons_self

theorem Clear.written_eq {n : Node} (h : n.Clear) (depth : Nat) :
    n.written depth = n.lead.spine.written depth ++ n.tailWritten depth := by
  rw [← written_spine]
  have hplain := h.head.1
  cases n with
  | conditional c a b => simp [Node.written, text, Node.lead, enclosedIf, tailWritten]
  | binary o l r => simp [Node.written, text, Node.lead, enclosedIf, tailWritten]
  | arrow => cases hplain
  | _ => exact (List.append_nil _).symm

/-! ### The first character -/

/-- A character that an expression begins with stands in front. -/
def Opening (cs : List Char) : Prop := ∃ c ds, cs = c :: ds ∧ opens c = true

theorem Opening.append (h : Opening cs) (ds : List Char) : Opening (cs ++ ds) := by
  obtain ⟨c, cs, rfl, hc⟩ := h
  exact ⟨c, cs ++ ds, rfl, hc⟩

theorem opening_prefixes {ps : List Prefix}
    (hps : ∀ p ∈ ps, p.Clear) (h : Opening cs) :
    Opening (ps.flatMap Prefix.written ++ cs) := by
  cases ps with
  | nil => exact h
  | cons p ps =>
    have hp : Opening p.written := by
      rcases hps p List.mem_cons_self with rfl | rfl | rfl
      · exact ⟨'n', _, rfl, by decide⟩
      · exact ⟨'a', _, rfl, by decide⟩
      · exact ⟨'!', _, rfl, by decide⟩
    rw [List.flatMap_cons, List.append_assoc]
    exact hp.append _

theorem exists_of_isIdentifier {name : String} (h : isIdentifier name = true) :
    ∃ c cs, name.toList = c :: cs ∧ isNameChar c = true := by
  cases hname : name.toList with
  | nil => simp [isIdentifier, hname, isIdentifierChars] at h
  | cons c cs => exact ⟨c, cs, rfl, isNameChar_of_isIdentifier h (by simp [hname])⟩

theorem enclosedIf_identifier (depth : Nat) (name : String) :
    enclosedIf depth (identifier name).isLooseObject (identifier name) = name.toList := by
  simp [enclosedIf, isLooseObject, isLoose, parenIf, text]

theorem enclosedIf_true (depth : Nat) (n : Node) :
    enclosedIf depth true n = '(' :: (n.written depth ++ [')']) := by
  simp [enclosedIf, parenIf, written]

theorem Spine.Clear.opening_head {s : Spine} (h : s.Clear) (depth : Nat) :
    Opening (enclosedIf depth s.head.isLooseObject s.head) := by
  rcases h.head with ⟨name, hname, hhead⟩ | ⟨hloose, -⟩
  · obtain ⟨c, cs, hcs, hc⟩ := exists_of_isIdentifier hname
    rw [hhead, enclosedIf_identifier]
    exact ⟨c, cs, hcs, by simp [opens, hc]⟩
  · rw [hloose, enclosedIf_true]
    exact ⟨'(', _, rfl, by decide⟩

theorem Clear.opening {n : Node} (h : n.Clear) (depth : Nat) : Opening (n.written depth) := by
  rw [h.written_eq, Spine.written]
  exact ((opening_prefixes h.lead.spine.prefixes (h.lead.spine.opening_head depth)).append _).append _

end DateFields.Node
