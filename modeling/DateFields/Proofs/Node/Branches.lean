import DateFields.Proofs.Node.Seams

/-!
# Which condition an `else` belongs to

A branch is printed without braces, so that an `else` reads as that of the nearest condition in front
of it that has none, whichever condition it is a branch of.

* `Node.IsControl` — statements made of conditions, `while` loops, blocks and names;
* `Node.reading` — the statement that the text is read as;
* `text_reading` — it has the same text;
* `IsControl.told` — a statement in which every `else` is read as it stands is known from a text that
  begins with it;
* `text_eq_iff_reading` — two statements have the same text just when they are read the same;
* `text_outerElse` — the text of a statement that is read as another.
-/

namespace DateFields.Node

open Text

/-- Statements made of conditions, loops, blocks and names. -/
inductive IsControl : Node → Prop
  /-- `a;` -/
  | expression {name : String} (h : isIdentifier name = true) :
    IsControl (.expression (.identifier name))
  /-- `if (a) …` or `if (a) … else …` -/
  | ifElse {name : String} {t : Node} {o : Option Node} (h : isIdentifier name = true)
    (ht : IsControl t) (ho : ∀ e ∈ o, IsControl e) : IsControl (.ifElse (.identifier name) t o)
  /-- `while (a) …` -/
  | whileLoop {name : String} {body : Node} (h : isIdentifier name = true) (hbody : IsControl body) :
    IsControl (.whileLoop (.identifier name) body)
  /-- `{ … }` -/
  | block {statements : List Node} (h : ∀ s ∈ statements, IsControl s) :
    IsControl (.block statements)

/-! ### Reading -/

/-- An `else` behind the statement is read as a part of it. -/
def endsOpen : Node → Bool
  | .ifElse _ _ none => true
  | .ifElse _ _ (some e) => e.endsOpen
  | .whileLoop _ body => body.endsOpen
  | _ => false

/-- The statement with an `else` behind it, as the two are read. -/
def withElse : Node → Node → Node
  | .ifElse condition t none, e =>
    if t.endsOpen then .ifElse condition (t.withElse e) none else .ifElse condition t (some e)
  | .ifElse condition t (some f), e => .ifElse condition t (some (f.withElse e))
  | .whileLoop condition body, e => .whileLoop condition (body.withElse e)
  | n, _ => n

/-- A condition as it is read when its branches are read as they stand. -/
def readElse : Node → Node
  | .ifElse condition t (some e) => (ifElse condition t none).withElse e
  | n => n

/-- The statement that the text of a statement is read as. -/
def reading : Node → Node := foldUp fun n children => (n.withReplies (children.map some)).readElse

/-- The `else` of the node is read as that of the node. -/
def ownsElse : Node → Bool
  | .ifElse _ t (some _) => !t.endsOpen
  | _ => true

/-- Every `else` in the node is read as it stands. -/
def Settled (n : Node) : Prop := Everywhere (fun m => m.ownsElse = true) [n]

theorem settled_iff {n : Node} :
    n.Settled ↔ n.ownsElse = true ∧ ∀ c ∈ n.children, c.Settled := by
  constructor
  · exact fun h => ⟨h.head, fun c hc => h.children.mem hc⟩
  · exact fun h => .of_children h.1 fun c hc => h.2 c hc c (List.mem_singleton_self c)

theorem reading_eq (n : Node) :
    n.reading = (n.withReplies ((n.children.map reading).map some)).readElse :=
  foldUp_eq _ n

theorem reading_ifElse (condition t : Node) (o : Option Node) :
    (ifElse condition t o).reading =
      (ifElse condition.reading t.reading (o.map reading)).readElse := by
  cases o <;> rfl

theorem reading_whileLoop (condition body : Node) :
    (whileLoop condition body).reading = .whileLoop condition.reading body.reading := rfl

theorem reading_block (statements : List Node) :
    (block statements).reading = .block (statements.map reading) := by
  have hstatements := congrArg Prod.fst (mapList_replies reading statements [])
  rw [List.append_nil] at hstatements
  rw [reading_eq, children, slots, map_child_listed]
  show block (mapList reply statements ((statements.map reading).map some)).1 = _
  rw [hstatements]

theorem readElse_eq_self {n : Node} (h : n.ownsElse = true) : n.readElse = n := by
  unfold readElse
  split
  · rename_i condition t e
    have hclosed : ¬ t.endsOpen = true := by simpa [ownsElse] using h
    rw [withElse, if_neg hclosed]
  · rfl

/-- A node is read as it stands when every `else` in it is. -/
theorem reading_eq_self {n : Node} (h : n.Settled) : n.reading = n := by
  induction n using ind_children with
  | _ n ih =>
    obtain ⟨howns, hsettled⟩ := settled_iff.1 h
    have hchildren : n.children.map reading = n.children :=
      (List.map_congr_left fun c hc => ih c hc (hsettled c hc)).trans (List.map_id n.children)
    rw [reading_eq, hchildren, withReplies_map_some]
    exact readElse_eq_self howns

/-! ### What the text of a reading is -/

theorem terminator_of_endsOpen {n : Node} (h : n.endsOpen = true) : n.terminator = "" := by
  cases n <;> first | rfl | cases h

theorem terminator_withElse (t e : Node) : (t.withElse e).terminator = t.terminator := by
  fun_cases withElse t e <;> rfl

theorem text_withElse {t : Node} (depth : Nat) (h : t.endsOpen = true) (e : Node) :
    (t.withElse e).text depth = t.text depth ++ elseText depth (some e) := by
  have hif : ∀ (condition t : Node) (o : Option Node), (ifElse condition t o).text depth =
      "if (" ++ condition.text depth ++ ") " ++ t.text depth ++ t.terminator ++
        elseText depth o := fun _ _ _ => by rw [text]
  fun_induction withElse t e with
  | case1 condition t e hopen ih =>
    rw [hif, hif, ih hopen, terminator_withElse, terminator_of_endsOpen hopen]
    simp [elseText, String.append_assoc]
  | case2 condition t e hclosed =>
    rw [hif, hif]
    simp [elseText]
  | case3 condition t f e ih =>
    have hopen : f.endsOpen = true := h
    rw [hif, hif, elseText, elseText, ih hopen, terminator_withElse, terminator_of_endsOpen hopen]
    simp [elseText, String.append_assoc]
  | case4 condition body e ih =>
    have hopen : body.endsOpen = true := h
    rw [text, text, ih hopen, terminator_withElse, terminator_of_endsOpen hopen]
    simp [elseText, String.append_assoc]
  | case5 n e hnone hsome hloop =>
    cases n with
    | ifElse condition t o =>
      cases o with
      | none => exact absurd rfl (hnone condition t)
      | some f => exact absurd rfl (hsome condition t f)
    | whileLoop condition body => exact absurd rfl (hloop condition body)
    | _ => cases h

theorem text_readElse (depth : Nat) (n : Node) : n.readElse.text depth = n.text depth := by
  unfold readElse
  split
  · rw [text_withElse depth rfl, text, text, elseText, String.append_empty]
  · rfl

theorem IsControl.terminator {n : Node} (h : n.IsControl) : n.terminator = "" := by
  cases h <;> rfl

theorem IsControl.withElse {t e : Node} (ht : t.IsControl) (he : e.IsControl) :
    (t.withElse e).IsControl := by
  induction ht with
  | expression h => exact .expression h
  | @ifElse name t o h ht ho iht iho =>
    cases o with
    | none =>
      rw [Node.withElse]
      split
      · exact .ifElse h iht (by simp)
      · exact .ifElse h ht (by simpa using he)
    | some f =>
      rw [Node.withElse]
      exact .ifElse h ht (by simpa using iho f rfl)
  | whileLoop h _ ih => exact .whileLoop h ih
  | block h _ => exact .block h

theorem IsControl.readElse {n : Node} (h : n.IsControl) : n.readElse.IsControl := by
  unfold Node.readElse
  split
  · cases h with
    | ifElse h ht ho => exact (IsControl.ifElse h ht (by simp)).withElse (ho _ rfl)
  · exact h

theorem IsControl.reading {n : Node} (h : n.IsControl) : n.reading.IsControl := by
  induction h with
  | expression h => exact .expression h
  | @ifElse name t o h _ _ iht iho =>
    rw [reading_ifElse]
    refine IsControl.readElse (.ifElse h iht ?_)
    simpa using iho
  | whileLoop h _ ih => exact .whileLoop h ih
  | block _ ih =>
    rw [reading_block]
    exact .block (by simpa using ih)

theorem linesText_map {f : Node → Node} {ns : List Node} {depth : Nat}
    (h : ∀ n ∈ ns, (f n).text depth = n.text depth ∧ (f n).terminator = n.terminator) :
    linesText depth (ns.map f) = linesText depth ns := by
  induction ns with
  | nil => rfl
  | cons n ns ih =>
    obtain ⟨⟨htext, hterminator⟩, hns⟩ := List.forall_mem_cons.1 h
    rw [List.map_cons, linesText, linesText, htext, hterminator, ih hns]

/-- A statement has the text of the statement that it is read as. -/
theorem IsControl.text_reading {n : Node} (h : n.IsControl) (depth : Nat) :
    n.reading.text depth = n.text depth := by
  induction h generalizing depth with
  | expression h => rfl
  | @ifElse name t o h ht ho iht iho =>
    rw [reading_ifElse, text_readElse, text, text, iht, ht.terminator, ht.reading.terminator]
    cases o with
    | none => rfl
    | some e =>
      have he := ho e rfl
      rw [Option.map_some, elseText, elseText, iho e rfl, he.terminator, he.reading.terminator]
      rfl
  | whileLoop h hbody ih =>
    rw [reading_whileLoop, text, text, ih, hbody.terminator, hbody.reading.terminator]
    rfl
  | @block statements h ih =>
    have hlines : linesText (depth + 1) (statements.map Node.reading) =
        linesText (depth + 1) statements := linesText_map fun n hn =>
      ⟨ih n hn (depth + 1), ((h n hn).reading.terminator).trans (h n hn).terminator.symm⟩
    rw [reading_block, text, text, hlines]
    cases statements <;> rfl

/-! ### Nothing is left to read otherwise -/

theorem settled_identifier (name : String) : (identifier name).Settled :=
  settled_iff.2 ⟨rfl, by simp [children, slots]⟩

theorem settled_ifElse {condition t : Node} {o : Option Node} : (ifElse condition t o).Settled ↔
    (ifElse condition t o).ownsElse = true ∧ condition.Settled ∧ t.Settled ∧ ∀ e ∈ o, e.Settled := by
  rw [settled_iff]
  simp [children, slots, Slot.fixed]

theorem settled_whileLoop {condition body : Node} :
    (whileLoop condition body).Settled ↔ condition.Settled ∧ body.Settled := by
  rw [settled_iff]
  simp [children, slots, Slot.fixed, ownsElse]

theorem settled_block {statements : List Node} :
    (block statements).Settled ↔ ∀ s ∈ statements, s.Settled := by
  rw [settled_iff]
  simp [children, slots, Slot.listed, ownsElse]

theorem Settled.withElse {t e : Node} (ht : t.Settled) (he : e.Settled) : (t.withElse e).Settled := by
  fun_induction Node.withElse t e with
  | case1 condition t e hopen ih =>
    obtain ⟨-, hcondition, ht, -⟩ := settled_ifElse.1 ht
    exact settled_ifElse.2 ⟨rfl, hcondition, ih ht he, by simp⟩
  | case2 condition t e hclosed =>
    obtain ⟨-, hcondition, ht, -⟩ := settled_ifElse.1 ht
    exact settled_ifElse.2 ⟨by simpa [ownsElse] using hclosed, hcondition, ht, by simpa using he⟩
  | case3 condition t f e ih =>
    obtain ⟨howns, hcondition, ht, hf⟩ := settled_ifElse.1 ht
    exact settled_ifElse.2 ⟨howns, hcondition, ht, by simpa using ih (hf f rfl) he⟩
  | case4 condition body e ih =>
    obtain ⟨hcondition, hbody⟩ := settled_whileLoop.1 ht
    exact settled_whileLoop.2 ⟨hcondition, ih hbody he⟩
  | case5 n e hnone hsome hloop => exact ht

/-- In the statement that a statement is read as, every `else` is read as it stands. -/
theorem IsControl.settled_reading {n : Node} (h : n.IsControl) : n.reading.Settled := by
  induction h with
  | expression h => exact settled_iff.2 ⟨rfl, List.forall_mem_singleton.2 (settled_identifier _)⟩
  | @ifElse name t o h ht ho iht iho =>
    have hopen : (Node.ifElse (identifier name) t.reading none).Settled :=
      settled_ifElse.2 ⟨rfl, settled_identifier name, iht, by simp⟩
    rw [reading_ifElse]
    cases o with
    | none => exact hopen
    | some e => exact hopen.withElse (iho e rfl)
  | whileLoop h hbody ih => exact settled_whileLoop.2 ⟨settled_identifier _, ih⟩
  | block h ih =>
    rw [reading_block]
    exact settled_block.2 (by simpa using ih)

/-! ### Texts of statements -/

variable {depth : Nat} {cs ds : List Char}

/-- The name characters that a statement begins with, and what stands behind them. -/
def mark : Node → List Char × Char
  | .expression (.identifier name) => (name.toList, ';')
  | .ifElse _ _ _ => (['i', 'f'], ' ')
  | .whileLoop _ _ => (['w', 'h', 'i', 'l', 'e'], ' ')
  | _ => ([], '\x7b')

/-- The characters of the other branch. -/
def elseWritten (depth : Nat) : Option Node → List Char
  | none => []
  | some e => " else ".toList ++ e.written depth

/-- The characters of the lines of a block. -/
def linesWritten (depth : Nat) (ns : List Node) : List Char :=
  ns.flatMap fun n => (indent depth).toList ++ n.written depth ++ ['\n']

theorem written_expression (name : String) :
    (expression (.identifier name)).written depth = name.toList ++ [';'] := by
  simp [written, text]

theorem written_ifElse {name : String} {t : Node} {o : Option Node} (ht : t.IsControl)
    (ho : ∀ e ∈ o, e.IsControl) : (ifElse (.identifier name) t o).written depth =
      "if (".toList ++ (name.toList ++ ')' :: ' ' :: (t.written depth ++ elseWritten depth o)) := by
  cases o with
  | none => simp [written, text, ht.terminator, elseText, elseWritten]
  | some e => simp [written, text, ht.terminator, elseText, elseWritten, (ho e rfl).terminator]

theorem written_whileLoop {name : String} {body : Node} (h : body.IsControl) :
    (whileLoop (.identifier name) body).written depth =
      "while (".toList ++ (name.toList ++ ')' :: ' ' :: body.written depth) := by
  simp [written, text, h.terminator]

theorem toList_linesText {ns : List Node} (h : ∀ n ∈ ns, n.IsControl) :
    (linesText depth ns).toList = linesWritten depth ns := by
  induction ns with
  | nil => simp [linesText, linesWritten]
  | cons n ns ih =>
    obtain ⟨hn, hns⟩ := List.forall_mem_cons.1 h
    have hrest := ih hns
    rw [linesWritten] at hrest ⊢
    simp [linesText, hn.terminator, written, hrest]

theorem written_block_nil : (block []).written depth = ['\x7b', '\x7d'] := by
  simp [written, text, braces]

theorem written_block_cons {n : Node} {ns : List Node} (h : ∀ s ∈ n :: ns, s.IsControl) :
    (block (n :: ns)).written depth =
      '\x7b' :: '\n' :: (linesWritten (depth + 1) (n :: ns) ++ (indent depth).toList ++ ['\x7d']) := by
  rw [← toList_linesText h]
  simp [written, text, braces]

theorem IsControl.exists_written {n : Node} (h : n.IsControl) (depth : Nat) :
    ∃ cs, n.written depth = n.mark.1 ++ n.mark.2 :: cs := by
  cases h with
  | expression => exact ⟨[], written_expression _⟩
  | ifElse h ht ho => exact ⟨_, written_ifElse ht ho⟩
  | whileLoop h hbody => exact ⟨_, written_whileLoop hbody⟩
  | @block statements h =>
    cases statements with
    | nil => exact ⟨_, written_block_nil⟩
    | cons n ns => exact ⟨_, written_block_cons h⟩

theorem IsControl.isNameChar_mark {n : Node} (h : n.IsControl) :
    (∀ c ∈ n.mark.1, isNameChar c = true) ∧ isNameChar n.mark.2 = false := by
  have hblank : isNameChar ' ' = false := by decide
  have hsemicolon : isNameChar ';' = false := by decide
  have hbrace : isNameChar '\x7b' = false := by decide
  have hif : ['i', 'f'].all isNameChar = true := by decide
  have hwhile : ['w', 'h', 'i', 'l', 'e'].all isNameChar = true := by decide
  cases h with
  | expression h => exact ⟨fun c hc => isNameChar_of_isIdentifier h hc, hsemicolon⟩
  | ifElse => exact ⟨List.all_eq_true.1 hif, hblank⟩
  | whileLoop => exact ⟨List.all_eq_true.1 hwhile, hblank⟩
  | block => exact ⟨nofun, hbrace⟩

theorem IsControl.mark_eq {n m : Node} (hn : n.IsControl) (hm : m.IsControl)
    (h : n.written depth ++ cs = m.written depth ++ ds) : n.mark = m.mark := by
  obtain ⟨cs', hcs⟩ := hn.exists_written depth
  obtain ⟨ds', hds⟩ := hm.exists_written depth
  obtain ⟨hname, hbehind⟩ := hn.isNameChar_mark
  obtain ⟨hname', hbehind'⟩ := hm.isNameChar_mark
  rw [hcs, hds, List.append_assoc, List.append_assoc] at h
  have hnames : ∀ c ∈ n.mark.1, (!isNameChar c) = false := by simpa using hname
  obtain ⟨hname, hrest⟩ := append_inj_of_cut hnames (by simpa using hname')
    (by simpa using hbehind) (by simpa using hbehind') h
  exact Prod.ext hname (List.cons.inj hrest).1

/-! ### Statements told by their text -/

/-- What may stand behind a statement: nothing, the end of the line, or an `else` that the statement
does not take for its own. -/
def Follows (n : Node) (cs : List Char) : Prop :=
  cs = [] ∨ (∃ ds, cs = '\n' :: ds) ∨ n.endsOpen = false ∧ ∃ ds, cs = " else ".toList ++ ds

/-- The statement is known from a text that begins with it. -/
def ToldStatement (n : Node) : Prop :=
  ∀ (m : Node) (depth : Nat) (cs ds : List Char), m.IsControl → m.Settled → Follows n cs →
    Follows m ds → n.written depth ++ cs = m.written depth ++ ds → n = m ∧ cs = ds

theorem toList_indent_succ (depth : Nat) :
    (indent (depth + 1)).toList = (indent depth).toList ++ [' ', ' ', ' ', ' '] := by
  rw [indent, indent, String.toList_ofList, String.toList_ofList, Nat.mul_succ, List.replicate_add]
  rfl

theorem linesWritten_cons (n : Node) (ns : List Node) (cs : List Char) :
    linesWritten depth (n :: ns) ++ cs =
      (indent depth).toList ++ (n.written depth ++ '\n' :: (linesWritten depth ns ++ cs)) := by
  simp [linesWritten]

/-- Lines are known from a text in which a brace stands behind them, less deep. -/
theorem told_lines {ns ms : List Node} (hns : ∀ n ∈ ns, n.ToldStatement)
    (hms : ∀ m ∈ ms, m.IsControl ∧ m.Settled)
    (h : linesWritten (depth + 1) ns ++ ((indent depth).toList ++ '\x7d' :: cs) =
      linesWritten (depth + 1) ms ++ ((indent depth).toList ++ '\x7d' :: ds)) : ns = ms ∧ cs = ds := by
  have hbrace : ∀ as bs : List Char, (indent depth).toList ++ '\x7d' :: as ≠
      (indent (depth + 1)).toList ++ bs := by
    intro as bs heq
    rw [toList_indent_succ] at heq
    simp at heq
  induction ns generalizing ms with
  | nil =>
    cases ms with
    | nil => exact ⟨rfl, (List.cons.inj (List.append_cancel_left h)).2⟩
    | cons m ms =>
      rw [linesWritten_cons] at h
      exact absurd h (hbrace _ _)
  | cons n ns ih =>
    rw [linesWritten_cons] at h
    cases ms with
    | nil => exact absurd h.symm (hbrace _ _)
    | cons m ms =>
      rw [linesWritten_cons] at h
      obtain ⟨hn, hns⟩ := List.forall_mem_cons.1 hns
      obtain ⟨⟨hm, hm'⟩, hms⟩ := List.forall_mem_cons.1 hms
      obtain ⟨hfirst, hrest⟩ := hn m _ _ _ hm hm' (.inr (.inl ⟨_, rfl⟩)) (.inr (.inl ⟨_, rfl⟩))
        (List.append_cancel_left h)
      obtain ⟨hothers, hbehind⟩ := ih hns hms (List.cons.inj hrest).2
      exact ⟨by rw [hfirst, hothers], hbehind⟩

/-- A name is known from a text in which a closing parenthesis stands behind it. -/
theorem told_name {name name' : String} (h : isIdentifier name = true)
    (h' : isIdentifier name' = true) (heq : name.toList ++ ')' :: cs = name'.toList ++ ')' :: ds) :
    name = name' ∧ cs = ds := by
  obtain ⟨hname, hrest⟩ := append_inj_of_cut (endsName_eq_false_of_isIdentifier h)
    (endsName_eq_false_of_isIdentifier h') (by simp; decide) (by simp; decide) heq
  exact ⟨String.toList_inj.1 hname, (List.cons.inj hrest).2⟩

/-- What stands behind a branch and what stands behind the condition. -/
theorem follows_branch {condition t : Node} {o : Option Node}
    (howns : (ifElse condition t o).ownsElse = true) (hc : Follows (ifElse condition t o) cs) :
    Follows t (elseWritten depth o ++ cs) := by
  cases o with
  | none =>
    rcases hc with hc | hc | ⟨hclosed, -⟩
    · exact .inl hc
    · exact .inr (.inl hc)
    · cases hclosed
  | some e =>
    have hclosed : t.endsOpen = false := by simpa [ownsElse] using howns
    exact .inr (.inr ⟨hclosed, e.written depth ++ cs, by simp [elseWritten]⟩)

/-- The other branch is known when the text goes on as behind a condition. -/
theorem told_else {condition condition' t t' : Node} {o o' : Option Node}
    (ho : ∀ e ∈ o, e.ToldStatement) (ho' : ∀ e ∈ o', e.IsControl ∧ e.Settled)
    (hc : Follows (ifElse condition t o) cs) (hd : Follows (ifElse condition' t' o') ds)
    (h : elseWritten depth o ++ cs = elseWritten depth o' ++ ds) : o = o' ∧ cs = ds := by
  have hopen : ∀ {condition t e : Node} {as bs : List Char}, Follows (ifElse condition t none) as →
      as ≠ elseWritten depth (some e) ++ bs := by
    intro condition t e as bs has heq
    rcases has with rfl | ⟨as, rfl⟩ | ⟨hclosed, -⟩
    · simp [elseWritten] at heq
    · simp [elseWritten] at heq
    · cases hclosed
  cases o with
  | none =>
    cases o' with
    | none => exact ⟨rfl, h⟩
    | some e' => exact absurd h (hopen hc)
  | some e =>
    cases o' with
    | none => exact absurd h.symm (hopen hd)
    | some e' =>
      rw [elseWritten, elseWritten, List.append_assoc, List.append_assoc] at h
      obtain ⟨he', he''⟩ := ho' e' rfl
      obtain ⟨he, hrest⟩ := ho e rfl e' depth cs ds he' he'' hc hd (List.append_cancel_left h)
      exact ⟨congrArg some he, hrest⟩

theorem told_expression {name : String} (h : isIdentifier name = true) :
    (expression (.identifier name)).ToldStatement := by
  intro m depth cs ds hm hm' hc hd heq
  have hmark := (IsControl.expression h).mark_eq hm heq
  cases hm with
  | @expression name' h' =>
    have hname : name = name' := String.toList_inj.1 (congrArg Prod.fst hmark)
    rw [hname] at heq ⊢
    exact ⟨rfl, List.append_cancel_left heq⟩
  | ifElse | whileLoop | block => simp [mark] at hmark

theorem told_ifElse {name : String} {t : Node} {o : Option Node}
    (hn : (ifElse (.identifier name) t o).IsControl)
    (howns : (ifElse (.identifier name) t o).ownsElse = true) (htold : t.ToldStatement)
    (hotold : ∀ e ∈ o, e.ToldStatement) : (ifElse (.identifier name) t o).ToldStatement := by
  intro m depth cs ds hm hm' hc hd heq
  have hmark := hn.mark_eq hm heq
  cases hn with
  | ifElse h ht ho =>
    cases hm with
    | @ifElse name' t' o' h' ht' ho' =>
      obtain ⟨howns', -, hsettled, hosettled⟩ := settled_ifElse.1 hm'
      rw [written_ifElse ht ho, written_ifElse ht' ho'] at heq
      have heq : name.toList ++ ')' :: ' ' :: (t.written depth ++ (elseWritten depth o ++ cs)) =
          name'.toList ++ ')' :: ' ' :: (t'.written depth ++ (elseWritten depth o' ++ ds)) := by
        simpa using heq
      obtain ⟨hname, hrest⟩ := told_name h h' heq
      obtain ⟨hbranch, hrest⟩ := htold t' depth _ _ ht' hsettled (follows_branch howns hc)
        (follows_branch howns' hd) (List.cons.inj hrest).2
      obtain ⟨helse, hbehind⟩ := told_else hotold (fun e he => ⟨ho' e he, hosettled e he⟩) hc hd hrest
      exact ⟨by rw [hname, hbranch, helse], hbehind⟩
    | expression | whileLoop | block => simp [mark] at hmark

theorem told_whileLoop {name : String} {body : Node}
    (hn : (whileLoop (.identifier name) body).IsControl) (htold : body.ToldStatement) :
    (whileLoop (.identifier name) body).ToldStatement := by
  intro m depth cs ds hm hm' hc hd heq
  have hmark := hn.mark_eq hm heq
  cases hn with
  | whileLoop h hbody =>
    cases hm with
    | @whileLoop name' body' h' hbody' =>
      obtain ⟨-, hsettled⟩ := settled_whileLoop.1 hm'
      rw [written_whileLoop hbody, written_whileLoop hbody'] at heq
      have heq : name.toList ++ ')' :: ' ' :: (body.written depth ++ cs) =
          name'.toList ++ ')' :: ' ' :: (body'.written depth ++ ds) := by
        simpa using heq
      obtain ⟨hname, hrest⟩ := told_name h h' heq
      obtain ⟨hbodies, hbehind⟩ := htold body' depth _ _ hbody' hsettled hc hd (List.cons.inj hrest).2
      exact ⟨by rw [hname, hbodies], hbehind⟩
    | expression | ifElse | block => simp [mark] at hmark

theorem told_block {statements : List Node} (hn : (block statements).IsControl)
    (htold : ∀ s ∈ statements, s.ToldStatement) : (block statements).ToldStatement := by
  intro m depth cs ds hm hm' hc hd heq
  have hmark := hn.mark_eq hm heq
  cases hn with
  | block h =>
    cases hm with
    | @block statements' h' =>
      have hothers : ∀ s ∈ statements', s.IsControl ∧ s.Settled := fun s hs =>
        ⟨h' s hs, settled_block.1 hm' s hs⟩
      cases statements with
      | nil =>
        cases statements' with
        | nil => exact ⟨rfl, List.append_cancel_left heq⟩
        | cons s' ss' => simp [written_block_nil, written_block_cons h'] at heq
      | cons s ss =>
        cases statements' with
        | nil => simp [written_block_nil, written_block_cons h] at heq
        | cons s' ss' =>
          rw [written_block_cons h, written_block_cons h'] at heq
          have heq : linesWritten (depth + 1) (s :: ss) ++ ((indent depth).toList ++ '\x7d' :: cs) =
              linesWritten (depth + 1) (s' :: ss') ++ ((indent depth).toList ++ '\x7d' :: ds) := by
            simpa using heq
          obtain ⟨hlines, hbehind⟩ := told_lines htold hothers heq
          exact ⟨by rw [hlines], hbehind⟩
    | expression | ifElse | whileLoop => simp [mark] at hmark

/-- A statement in which every `else` is read as it stands is known from a text that begins with it. -/
theorem IsControl.told {n : Node} (hn : n.IsControl) (hsettled : n.Settled) : n.ToldStatement := by
  induction hn with
  | expression h => exact told_expression h
  | ifElse h ht ho iht iho =>
    obtain ⟨howns, -, ht', ho'⟩ := settled_ifElse.1 hsettled
    exact told_ifElse (.ifElse h ht ho) howns (iht ht') fun e he => iho e he (ho' e he)
  | whileLoop h hbody ih =>
    exact told_whileLoop (.whileLoop h hbody) (ih (settled_whileLoop.1 hsettled).2)
  | block h ih => exact told_block (.block h) fun s hs => ih s hs (settled_block.1 hsettled s hs)

/-! ### What the text tells -/

/-- Statements made of conditions, loops, blocks and names have the same text just when they are read
as the same statement, and a statement is read as it stands just when no branch in front of an `else`
ends in a condition without one. -/
theorem text_eq_iff_reading {n m : Node} (hn : n.IsControl) (hm : m.IsControl) (depth : Nat) :
    (n.text depth = m.text depth ↔ n.reading = m.reading) ∧
      (n.reading = n ↔ ∀ k ∈ n.subtree, k.ownsElse = true) := by
  refine ⟨⟨fun heq => ?_, fun heq => ?_⟩, fun heq => ?_, fun hsettled => ?_⟩
  · have hwritten : n.reading.written depth ++ [] = m.reading.written depth ++ [] := by
      rw [written, written, hn.text_reading depth, heq, hm.text_reading depth]
    exact (hn.reading.told hn.settled_reading m.reading depth [] [] hm.reading hm.settled_reading
      (.inl rfl) (.inl rfl) hwritten).1
  · rw [← hn.text_reading depth, heq, hm.text_reading depth]
  · have hsettled := hn.settled_reading
    rw [heq] at hsettled
    exact List.forall_mem_singleton.1 hsettled
  · exact reading_eq_self (List.forall_mem_singleton.2 hsettled)

/-- A condition in the branch of a condition, and an `else` of the outer one. -/
def outerElse : Node :=
  .ifElse (.identifier "a") (.ifElse (.identifier "b") (.expression (.identifier "c")) none)
    (some (.expression (.identifier "d")))

/-- A condition in the branch of a condition, and an `else` of the inner one. -/
def innerElse : Node :=
  .ifElse (.identifier "a")
    (.ifElse (.identifier "b") (.expression (.identifier "c"))
      (some (.expression (.identifier "d")))) none

theorem isControl_outerElse : outerElse.IsControl := by
  have hd : IsControl (.expression (.identifier "d")) := .expression (by decide)
  exact .ifElse (by decide) (.ifElse (by decide) (.expression (by decide)) nofun) (by simpa using hd)

theorem isControl_innerElse : innerElse.IsControl := by
  have hd : IsControl (.expression (.identifier "d")) := .expression (by decide)
  exact .ifElse (by decide) (.ifElse (by decide) (.expression (by decide)) (by simpa using hd)) nofun

theorem text_eq_iff_reading_outerElse : outerElse.IsControl ∧ innerElse.IsControl ∧
    (outerElse.text 0 = innerElse.text 0 ↔ outerElse.reading = innerElse.reading) ∧
      (outerElse.reading = outerElse ↔ ∀ k ∈ outerElse.subtree, k.ownsElse = true) :=
  ⟨isControl_outerElse, isControl_innerElse,
    text_eq_iff_reading isControl_outerElse isControl_innerElse 0⟩

/-- The text `if (a) if (b) c; else d;` is that of two statements: the `else` of the outer condition
reads as that of the inner one. -/
theorem text_outerElse : outerElse.IsControl ∧ innerElse.IsControl ∧
    outerElse.text 0 = innerElse.text 0 ∧ outerElse ≠ innerElse :=
  ⟨isControl_outerElse, isControl_innerElse, by decide +kernel, by simp [outerElse, innerElse]⟩

end DateFields.Node
