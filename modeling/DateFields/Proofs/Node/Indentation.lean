import DateFields.Node.Printer
import DateFields.Proofs.Node.Address
import DateFields.Proofs.Text.Indentation

/-!
# Depth and indentation

A node that is printed one block deeper has four blanks more behind every line feed.

* `Node.rawTexts` — the texts of a node that are printed as they are;
* `text_succ` — one block deeper, for every node without line feeds in raw texts;
* `linesText_succ` — statements one block deeper are indented;
* `text_block` — a block is its statements, indented between braces.
-/

namespace DateFields

open Text

/-! ### Raw texts -/

/-- The names of an import clause. -/
def ImportClause.rawTexts (c : ImportClause) : List String :=
  c.defaultName.toList ++ c.namespaceName.toList ++
    c.named.flatMap fun n => n.name :: n.asName.toList

/-- A name and the text of its type. -/
def declaredTexts (name : String) (type : Option TypeExpr) : List String :=
  name :: type.toList.map TypeExpr.text

namespace Node

/-- The texts of a node itself that are printed as they are: names, raw text, numbers, operators and
types.  Comments are not among them, nor is what is quoted: strings, the modules of imports, and those
keys of objects that are no plain names. -/
def rawTexts : Node → List String
  | .importDecl clause _ => clause.elim [] ImportClause.rawTexts
  | .varDecl _ entries => entries.flatMap fun e => declaredTexts e.name e.type
  | .function head _ =>
    declaredTexts head.name head.returnType ++ head.params.flatMap fun p => declaredTexts p.name p.type
  | .forOf _ binding _ _ => [binding]
  | .tryCatch _ param _ _ => param.toList
  | .classDecl name _ _ => name.toList
  | .method _ head _ =>
    declaredTexts head.name head.returnType ++ head.params.flatMap fun p => declaredTexts p.name p.type
  | .classField name _ type _ => declaredTexts name type
  | .verbatim t => [t]
  | .identifier name => [name]
  | .number value => [value]
  | .propertyAccess _ name => [name]
  | .call _ _ typeArgs _ => typeArgs.map TypeExpr.text
  | .binary operator _ _ => [operator]
  | .unary operator _ => [operator]
  | .arrow _ params _ => params.flatMap fun p => declaredTexts p.name p.type
  | _ => []

/-- No raw text of the node itself has a line feed in it. -/
def RawSingle (n : Node) : Prop := ∀ s ∈ n.rawTexts, SingleLine s

/-- One block deeper, the text of the node has four blanks more behind every line feed. -/
def Deepens (n : Node) : Prop := ∀ depth, n.text (depth + 1) = deeper (n.text depth)

/-! ### Pieces of one line -/

theorem singleLine_commas {texts : List String} (h : ∀ s ∈ texts, SingleLine s) :
    SingleLine (commas texts) :=
  singleLine_intercalate (by decide) h

theorem singleLine_declared {name : String} {type : Option TypeExpr}
    (h : ∀ s ∈ declaredTexts name type, SingleLine s) :
    SingleLine name ∧ SingleLine (typeText type) := by
  obtain ⟨hname, htype⟩ := List.forall_mem_cons.1 h
  refine ⟨hname, ?_⟩
  cases type with
  | none => decide
  | some t => exact SingleLine.append (by decide) (htype _ List.mem_cons_self)

theorem singleLine_signatureText {params : List Parameter} {returnType : Option TypeExpr}
    (hparams : ∀ s ∈ params.flatMap fun p => declaredTexts p.name p.type, SingleLine s)
    (hreturn : SingleLine (typeText returnType)) :
    SingleLine (signatureText params returnType) := by
  have hnames : ∀ s ∈ params.map fun p => p.name ++ typeText p.type, SingleLine s := by
    refine List.forall_mem_map.2 fun p hp => ?_
    have hp' := singleLine_declared fun s hs => hparams s (List.mem_flatMap.2 ⟨p, hp, hs⟩)
    exact hp'.1.append hp'.2
  exact ((SingleLine.append (by decide) (singleLine_commas hnames)).append (by decide)).append hreturn

theorem singleLine_headText {head : FunctionHead}
    (h : ∀ s ∈ declaredTexts head.name head.returnType ++
      head.params.flatMap fun p => declaredTexts p.name p.type, SingleLine s) :
    SingleLine (headText head) := by
  obtain ⟨hhead, hparams⟩ := List.forall_mem_append.1 h
  obtain ⟨hname, hreturn⟩ := singleLine_declared hhead
  exact (hname.append (singleLine_signatureText hparams hreturn)).append (by decide)

theorem singleLine_importText {clause : Option ImportClause} (specifier : String)
    (h : ∀ s ∈ clause.elim [] ImportClause.rawTexts, SingleLine s) :
    SingleLine (importText clause specifier) := by
  have hquote := singleLine_quote specifier
  cases clause with
  | none => exact (SingleLine.append (by decide) hquote).append (by decide)
  | some c =>
    obtain ⟨houter, hnamed⟩ := List.forall_mem_append.1 h
    obtain ⟨hdefault, hnamespace⟩ := List.forall_mem_append.1 houter
    have hnames : ∀ s ∈ c.named.map importNameText, SingleLine s := by
      refine List.forall_mem_map.2 fun n hn => ?_
      have hn' := fun s hs => hnamed s (List.mem_flatMap.2 ⟨n, hn, hs⟩)
      obtain ⟨hname, has⟩ := List.forall_mem_cons.1 hn'
      rw [importNameText]
      cases hcase : n.asName with
      | none => exact hname
      | some a => exact (hname.append (by decide)).append (has a (by simp [hcase]))
    have houter : ∀ s ∈ c.defaultName.toList ++ c.namespaceName.toList.map ("* as " ++ ·),
        SingleLine s := by
      refine List.forall_mem_append.2 ⟨hdefault, List.forall_mem_map.2 fun s hs => ?_⟩
      exact SingleLine.append (by decide) (hnamespace s hs)
    have hbraces : SingleLine (namedImportsText c.named) := by
      cases hcase : c.named with
      | nil => decide
      | cons n names =>
        rw [hcase] at hnames
        exact (SingleLine.append (by decide) (singleLine_commas hnames)).append (by decide)
    have hclause : SingleLine (clauseText c) := by
      simp only [clauseText]
      split
      · exact singleLine_commas houter
      · exact singleLine_commas
          (List.forall_mem_append.2 ⟨houter, List.forall_mem_singleton.2 hbraces⟩)
    exact (((SingleLine.append (by decide) hclause).append (by decide)).append hquote).append
      (by decide)

theorem singleLine_keyText (name : String) : SingleLine (keyText name) := by
  unfold keyText
  split
  · exact singleLine_of_isIdentifier ‹_›
  · exact singleLine_quote name

theorem singleLine_textIf {wanted : Bool} {s : String} (h : SingleLine s) :
    SingleLine (textIf wanted s) := by
  cases wanted with
  | false => exact List.not_mem_nil
  | true => exact h

theorem singleLine_typeArgs {typeArgs : List TypeExpr}
    (h : ∀ s ∈ typeArgs.map TypeExpr.text, SingleLine s) :
    SingleLine (textIf (!typeArgs.isEmpty) ("<" ++ TypeExpr.textAll ", " typeArgs ++ ">")) := by
  rw [TypeExpr.textAll_eq]
  exact singleLine_textIf ((SingleLine.append (by decide) (singleLine_commas h)).append (by decide))

/-! ### Pieces of several lines -/

variable {n : Node} {ns : List Node} {depth : Nat}

theorem indent_succ (depth : Nat) : indent (depth + 1) = String.ofList blanks ++ indent depth := by
  rw [indent, indent, ← String.ofList_append, Nat.mul_succ, Nat.add_comm, List.replicate_add]
  rfl

theorem singleLine_indent (depth : Nat) : SingleLine (indent depth) := by
  simp [SingleLine, indent]

theorem commas_map_deeper (texts : List String) :
    commas (texts.map deeper) = deeper (commas texts) := by
  rw [commas, commas, deeper_intercalate]
  rfl

theorem parenIf_deeper (needed : Bool) (s : String) :
    parenIf needed (deeper s) = deeper (parenIf needed s) := by
  cases needed
  · rfl
  · simp only [parenIf, if_true, deeper_append]
    rfl

theorem deeper_terminator (n : Node) : deeper n.terminator = n.terminator :=
  deeper_eq_self (singleLine_textIf (by decide))

theorem commentText_succ (depth : Nat) (t : String) :
    commentText (depth + 1) t = deeper (commentText depth t) := by
  have hlines : ((Text.lines t.toList).map fun l => "// " ++ String.ofList l).map deeper =
      (Text.lines t.toList).map fun l => "// " ++ String.ofList l := by
    rw [List.map_map]
    refine List.map_congr_left fun l hl => deeper_eq_self (SingleLine.append (by decide) ?_)
    simpa [SingleLine] using singleLine_of_mem_lines hl
  have hbreak : deeper ("\n" ++ indent depth) = "\n" ++ indent (depth + 1) := by
    rw [deeper_append, deeper_eq_self (singleLine_indent depth), indent_succ, ← String.append_assoc]
    rfl
  rw [commentText, commentText, deeper_intercalate, hlines, hbreak]

theorem texts_succ (h : ∀ n ∈ ns, Deepens n) : texts (depth + 1) ns = (texts depth ns).map deeper := by
  rw [texts_eq, texts_eq, List.map_map]
  exact List.map_congr_left fun n hn => h n hn depth

theorem partsText_succ (h : ∀ n ∈ ns, Deepens n) :
    partsText (depth + 1) ns = deeper (partsText depth ns) := by
  induction ns with
  | nil => rfl
  | cons n ns ih =>
    obtain ⟨hn, hns⟩ := List.forall_mem_cons.1 h
    rw [partsText, partsText, deeper_append, hn depth, ih hns]

/-- The blanks in front of each line of a block. -/
theorem blanks_append_deeper_linesText (depth : Nat) (h : ∀ n ∈ ns, Deepens n) :
    String.ofList blanks ++ deeper (linesText depth ns) =
      linesText (depth + 1) ns ++ String.ofList blanks := by
  induction ns with
  | nil => rfl
  | cons n ns ih =>
    obtain ⟨hn, hns⟩ := List.forall_mem_cons.1 h
    have hfeed : deeper "\n" = "\n" ++ String.ofList blanks := rfl
    rw [linesText, linesText]
    simp only [deeper_append, deeper_eq_self (singleLine_indent depth), deeper_terminator, hfeed,
      String.append_assoc, ih hns, hn depth, indent_succ]

theorem braces_succ (depth : Nat) (isEmpty : Bool) (h : ∀ n ∈ ns, Deepens n) :
    braces (depth + 1) isEmpty (linesText (depth + 1 + 1) ns) =
      deeper (braces depth isEmpty (linesText (depth + 1) ns)) := by
  have hopen : deeper "\x7b\n" = "\x7b\n" ++ String.ofList blanks := rfl
  have hclose : deeper "\x7d" = "\x7d" := rfl
  have hempty : deeper "\x7b\x7d" = "\x7b\x7d" := rfl
  cases isEmpty with
  | true => simp only [braces, if_true, hempty]
  | false =>
    -- the blanks behind the opening brace go on to stand in front of the closing one
    have hmove := congrArg (· ++ (indent depth ++ "\x7d"))
      (blanks_append_deeper_linesText (depth + 1) h)
    simp only [String.append_assoc] at hmove
    simp only [braces, Bool.false_eq_true, if_false, deeper_append, hopen, hclose,
      deeper_eq_self (singleLine_indent depth), indent_succ depth, String.append_assoc, hmove]

theorem textAfter_succ {lead : String} {o : Option Node} (hlead : SingleLine lead)
    (h : ∀ n ∈ o.toList, Deepens n) :
    textAfter (depth + 1) lead o = deeper (textAfter depth lead o) := by
  cases o with
  | none => rfl
  | some n =>
    rw [textAfter, textAfter, deeper_append, deeper_eq_self hlead, h n (by simp) depth]

theorem elseText_succ {o : Option Node} (h : ∀ n ∈ o.toList, Deepens n) :
    elseText (depth + 1) o = deeper (elseText depth o) := by
  cases o with
  | none => rfl
  | some n =>
    have hlead : deeper " else " = " else " := rfl
    rw [elseText, elseText, deeper_append, deeper_append, hlead, deeper_terminator,
      h n (by simp) depth]

theorem initText_succ {o : Option Node} (h : ∀ n ∈ o.toList, Deepens n) :
    initText (depth + 1) o = deeper (initText depth o) := by
  cases o with
  | none => rfl
  | some n =>
    have hn := h n (by simp) depth
    cases n with
    | varDecl kind entries =>
      -- only the semicolon is missing that a declaration has elsewhere
      have hclose : deeper ";" = ";" := rfl
      rw [text, text, deeper_append, hclose] at hn
      exact (String.append_left_inj ";").1 hn
    | _ => simpa only [initText] using hn

theorem blockTextAfter_succ (depth : Nat) {lead : String} {o : Option (List Node)}
    (hlead : SingleLine lead) (h : ∀ n ∈ o.getD [], Deepens n) :
    blockTextAfter (depth + 1) lead o = deeper (blockTextAfter depth lead o) := by
  cases o with
  | none => rfl
  | some statements =>
    have hblock := braces_succ depth statements.isEmpty (show ∀ n ∈ statements, Deepens n from h)
    rw [blockTextAfter, blockTextAfter, deeper_append, deeper_eq_self hlead, hblock]

theorem entryTexts_succ {entries : List (Declarator Node)}
    (hraw : ∀ s ∈ entries.flatMap fun e => declaredTexts e.name e.type, SingleLine s)
    (h : ∀ n ∈ initialValues entries, Deepens n) :
    entryTexts (depth + 1) entries = (entryTexts depth entries).map deeper := by
  induction entries with
  | nil => rfl
  | cons e entries ih =>
    obtain ⟨name, type, init⟩ := e
    rw [List.flatMap_cons] at hraw
    obtain ⟨hdeclared, hraw⟩ := List.forall_mem_append.1 hraw
    have hinit : ∀ n ∈ init.toList, Deepens n := fun n hn => h n (by
      cases init with
      | none => cases hn
      | some m => simp_all [initialValues])
    have hrest : ∀ n ∈ initialValues entries, Deepens n := fun n hn => h n (by
      cases init <;> simp_all [initialValues])
    obtain ⟨hname, htype⟩ := singleLine_declared hdeclared
    rw [entryTexts, entryTexts, List.map_cons, ih hraw hrest, entryText, entryText, deeper_append,
      deeper_eq_self (hname.append htype), textAfter_succ (by decide) hinit]

theorem valueTexts_succ {entries : List (String × Node)}
    (h : ∀ n ∈ entries.map Prod.snd, Deepens n) :
    valueTexts (depth + 1) entries = (valueTexts depth entries).map deeper := by
  induction entries with
  | nil => rfl
  | cons e entries ih =>
    obtain ⟨name, n⟩ := e
    obtain ⟨hn, hrest⟩ := List.forall_mem_cons.1 h
    have hcolon : deeper ": " = ": " := rfl
    rw [valueTexts, valueTexts, List.map_cons, ih hrest, valueText, valueText, deeper_append,
      deeper_append, deeper_eq_self (singleLine_keyText name), hcolon, hn depth]

/-! ### Nodes -/

/-- An expression moves as its children do. -/
theorem deepens_expression (hn : n.isExpression = true) (hraw : n.RawSingle)
    (h : ∀ c ∈ n.children, Deepens c) : Deepens n := by
  intro depth
  have hc := fun c hc => h c hc depth
  cases n with
  | identifier name => rw [text, text, deeper_eq_self (hraw name (by simp [rawTexts]))]
  | string value => rw [text, text, deeper_eq_self (singleLine_quote value)]
  | number value => rw [text, text, deeper_eq_self (hraw value (by simp [rawTexts]))]
  | array elements =>
    have helements : texts (depth + 1) elements = (texts depth elements).map deeper :=
      texts_succ (by simpa [children, slots, Slot.fixed] using h)
    simp (disch := decide) only [text, deeper_append, deeper_eq_self, helements, commas_map_deeper]
  | object entries =>
    have hvalues : valueTexts (depth + 1) entries = (valueTexts depth entries).map deeper :=
      valueTexts_succ (by simpa [children, slots, Slot.fixed] using h)
    cases entries with
    | nil => simp (disch := decide) only [text, deeper_eq_self]
    | cons e entries =>
      simp (disch := decide) only [text, deeper_append, deeper_eq_self, hvalues, commas_map_deeper]
  | propertyAccess target name =>
    have hname : SingleLine name := hraw name (by simp [rawTexts])
    simp (disch := first | assumption | decide) only [text, deeper_append, deeper_eq_self,
      parenIf_deeper, hc target (by simp [children, slots, Slot.fixed])]
  | elementAccess target index =>
    simp (disch := decide) only [text, deeper_append, deeper_eq_self, parenIf_deeper,
      hc target (by simp [children, slots, Slot.fixed]),
      hc index (by simp [children, slots, Slot.fixed])]
  | call id callee typeArgs args =>
    have hargs : texts (depth + 1) args = (texts depth args).map deeper := texts_succ fun n hn =>
      h n (by simp [children, slots, Slot.fixed, hn])
    have htypes := singleLine_typeArgs hraw
    simp (disch := first | assumption | decide) only [text, deeper_append, deeper_eq_self,
      parenIf_deeper, commas_map_deeper, hargs, hc callee (by simp [children, slots, Slot.fixed])]
  | newObject callee args =>
    have hargs : texts (depth + 1) args = (texts depth args).map deeper := texts_succ fun n hn =>
      h n (by simp [children, slots, Slot.fixed, hn])
    simp (disch := decide) only [text, deeper_append, deeper_eq_self, parenIf_deeper,
      commas_map_deeper, hargs, hc callee (by simp [children, slots, Slot.fixed])]
  | await e =>
    simp (disch := decide) only [text, deeper_append, deeper_eq_self, parenIf_deeper,
      hc e (by simp [children, slots, Slot.fixed])]
  | conditional condition whenTrue whenFalse =>
    simp (disch := decide) only [text, deeper_append, deeper_eq_self, parenIf_deeper,
      hc condition (by simp [children, slots, Slot.fixed]),
      hc whenTrue (by simp [children, slots, Slot.fixed]),
      hc whenFalse (by simp [children, slots, Slot.fixed])]
  | binary operator left right =>
    have hoperator : SingleLine operator := hraw operator (by simp [rawTexts])
    simp (disch := first | assumption | decide) only [text, deeper_append, deeper_eq_self,
      parenIf_deeper, hc left (by simp [children, slots, Slot.fixed]),
      hc right (by simp [children, slots, Slot.fixed])]
  | unary operator operand =>
    have hoperator : SingleLine (operatorText operator) :=
      (hraw operator (by simp [rawTexts])).append (singleLine_textIf (by decide))
    simp (disch := assumption) only [text, deeper_append, deeper_eq_self, parenIf_deeper,
      hc operand (by simp [children, slots, Slot.fixed])]
  | arrow isAsync params body =>
    have hasync : SingleLine (textIf isAsync "async ") := singleLine_textIf (by decide)
    have hparams : SingleLine (signatureText params none) :=
      singleLine_signatureText hraw (by decide)
    simp (disch := first | assumption | decide) only [text, deeper_append, deeper_eq_self,
      parenIf_deeper, hc body (by simp [children, slots, Slot.fixed])]
  | _ => cases hn

/-- A statement moves as its children do. -/
theorem deepens_statement (hn : n.isExpression = false) (hraw : n.RawSingle)
    (h : ∀ c ∈ n.children, Deepens c) : Deepens n := by
  intro depth
  have hc := fun c hc => h c hc depth
  cases n with
  | importDecl clause specifier =>
    rw [text, text, deeper_eq_self (singleLine_importText specifier hraw)]
  | varDecl kind entries =>
    have hkind : SingleLine kind.keyword := by cases kind <;> decide
    have hentries : entryTexts (depth + 1) entries = (entryTexts depth entries).map deeper :=
      entryTexts_succ hraw (by simpa [children, slots, Slot.fixed] using h)
    simp (disch := first | assumption | decide) only [text, deeper_append, deeper_eq_self, hentries,
      commas_map_deeper]
  | expression e =>
    simp (disch := decide) only [text, deeper_append, deeper_eq_self,
      hc e (by simp [children, slots, Slot.fixed])]
  | returnStmt value =>
    have hvalue : textAfter (depth + 1) " " value = deeper (textAfter depth " " value) :=
      textAfter_succ (by decide) (by simpa [children, slots, Slot.fixed] using h)
    simp (disch := decide) only [text, deeper_append, deeper_eq_self, hvalue]
  | function head body =>
    have hbody := braces_succ depth body.isEmpty (by simpa [children, slots, Slot.listed] using h)
    have hasync : SingleLine (textIf head.isAsync "async ") := singleLine_textIf (by decide)
    have hhead := singleLine_headText hraw
    simp (disch := first | assumption | decide) only [text, deeper_append, deeper_eq_self, hbody]
  | block statements =>
    rw [text, text, braces_succ depth statements.isEmpty
      (by simpa [children, slots, Slot.listed] using h)]
  | exportDecl declaration =>
    simp (disch := decide) only [text, deeper_append, deeper_eq_self, deeper_terminator,
      hc declaration (by simp [children, slots, Slot.fixed])]
  | exportDefault e =>
    simp (disch := decide) only [text, deeper_append, deeper_eq_self,
      hc e (by simp [children, slots, Slot.fixed])]
  | ifElse condition thenBranch elseBranch =>
    have helse : elseText (depth + 1) elseBranch = deeper (elseText depth elseBranch) :=
      elseText_succ fun n hn => h n (by simp_all [children, slots, Slot.fixed])
    simp (disch := decide) only [text, deeper_append, deeper_eq_self, deeper_terminator, helse,
      hc condition (by simp [children, slots, Slot.fixed]),
      hc thenBranch (by simp [children, slots, Slot.fixed])]
  | forLoop init condition update body =>
    have hinit : initText (depth + 1) init = deeper (initText depth init) :=
      initText_succ fun n hn => h n (by simp_all [children, slots, Slot.fixed])
    have hcondition : textAfter (depth + 1) " " condition = deeper (textAfter depth " " condition) :=
      textAfter_succ (by decide) fun n hn => h n (by simp_all [children, slots, Slot.fixed])
    have hupdate : textAfter (depth + 1) " " update = deeper (textAfter depth " " update) :=
      textAfter_succ (by decide) fun n hn => h n (by simp_all [children, slots, Slot.fixed])
    simp (disch := decide) only [text, deeper_append, deeper_eq_self, deeper_terminator, hinit,
      hcondition, hupdate, hc body (by simp [children, slots, Slot.fixed])]
  | forOf kind binding iterable body =>
    have hkind : SingleLine kind.keyword := by cases kind <;> decide
    have hbinding : SingleLine binding := hraw _ (by simp [rawTexts])
    simp (disch := first | assumption | decide) only [text, deeper_append, deeper_eq_self,
      deeper_terminator, hc iterable (by simp [children, slots, Slot.fixed]),
      hc body (by simp [children, slots, Slot.fixed])]
  | whileLoop condition body =>
    simp (disch := decide) only [text, deeper_append, deeper_eq_self, deeper_terminator,
      hc condition (by simp [children, slots, Slot.fixed]),
      hc body (by simp [children, slots, Slot.fixed])]
  | tryCatch body param handler finalizer =>
    have hbody := braces_succ depth body.isEmpty (show ∀ n ∈ body, Deepens n from fun n hn =>
      h n (by simp [children, slots, Slot.listed, hn]))
    have hcatch : SingleLine (" catch " ++ param.elim "" fun p => "(" ++ p ++ ") ") := by
      refine SingleLine.append (by decide) ?_
      cases param with
      | none => decide
      | some p =>
        exact (SingleLine.append (by decide) (hraw p (by simp [rawTexts]))).append (by decide)
    have hhandler := blockTextAfter_succ depth hcatch (show ∀ n ∈ handler.getD [], Deepens n from
      fun n hn => h n (by simp [children, slots, Slot.listed, hn]))
    have hfinalizer := blockTextAfter_succ depth (show SingleLine " finally " by decide)
      (show ∀ n ∈ finalizer.getD [], Deepens n from fun n hn =>
        h n (by simp [children, slots, Slot.listed, hn]))
    simp (disch := decide) only [text, deeper_append, deeper_eq_self, hbody, hhandler, hfinalizer]
  | throwStmt value =>
    simp (disch := decide) only [text, deeper_append, deeper_eq_self,
      hc value (by simp [children, slots, Slot.fixed])]
  | classDecl name base members =>
    have hname : SingleLine (name.elim "" (· ++ " ")) := by
      cases name with
      | none => decide
      | some s => exact (hraw s (by simp [rawTexts])).append (by decide)
    have hmembers := braces_succ depth members.isEmpty (show ∀ n ∈ members, Deepens n from
      fun n hn => h n (by simp [children, slots, Slot.listed, hn]))
    cases base with
    | none =>
      simp (disch := first | assumption | decide) only [text, deeper_append, deeper_eq_self, hmembers]
    | some b =>
      simp (disch := first | assumption | decide) only [text, deeper_append, deeper_eq_self, hmembers,
        hc b (by simp [children, slots, Slot.fixed])]
  | method isStatic head body =>
    have hbody := braces_succ depth body.isEmpty (by simpa [children, slots, Slot.listed] using h)
    have hstatic : SingleLine (textIf isStatic "static ") := singleLine_textIf (by decide)
    have hasync : SingleLine (textIf head.isAsync "async ") := singleLine_textIf (by decide)
    have hhead := singleLine_headText hraw
    simp (disch := first | assumption | decide) only [text, deeper_append, deeper_eq_self, hbody]
  | classField name isStatic type init =>
    have hstatic : SingleLine (textIf isStatic "static ") := singleLine_textIf (by decide)
    obtain ⟨hname, htype⟩ := singleLine_declared hraw
    have hinit : textAfter (depth + 1) " = " init = deeper (textAfter depth " = " init) :=
      textAfter_succ (by decide) (by simpa [children, slots, Slot.fixed] using h)
    simp (disch := first | assumption | decide) only [text, deeper_append, deeper_eq_self, hinit]
  | comment t => rw [text, text, commentText_succ]
  | verbatim t => rw [text_verbatim, text_verbatim, deeper_eq_self (hraw t (by simp [rawTexts]))]
  | fragment parts =>
    rw [text, text, partsText_succ (by simpa [children, slots, Slot.listed] using h)]
  | _ => cases hn

/-- One block deeper a node is printed with four blanks more behind every line feed. -/
theorem text_succ (h : Everywhere RawSingle [n]) : Deepens n := by
  induction n using ind_children with
  | _ n ih =>
    have hchildren : ∀ c ∈ n.children, Deepens c := fun c hc =>
      ih c hc (h.children.mem hc)
    cases hn : n.isExpression with
    | true => exact deepens_expression hn h.head hchildren
    | false => exact deepens_statement hn h.head hchildren

theorem deepens_of_mem (h : Everywhere RawSingle ns) : ∀ n ∈ ns, Deepens n := fun _ hn =>
  text_succ (h.mem hn)

/-- One block deeper, every line of some statements is indented. -/
theorem linesText_succ (h : Everywhere RawSingle ns) :
    linesText (depth + 1) ns = indented (linesText depth ns) := by
  induction ns with
  | nil => rfl
  | cons n ns ih =>
    have hn := deepens_of_mem h n List.mem_cons_self depth
    rw [linesText, linesText, indented_append, ih h.tail, deeper_append, deeper_append,
      deeper_terminator, deeper_eq_self (singleLine_indent depth), hn, indent_succ]
    simp only [String.append_assoc]

/-- A block is printed as the statements in it are printed as a unit, with every line indented,
between two braces; a block of no statements as the braces alone. -/
theorem text_block (path : Path) (h : ∀ n ∈ ns, ∀ m ∈ n.subtree, ∀ s ∈ m.rawTexts, '\n' ∉ s.toList) :
    (block ns).text 0 = if ns.isEmpty then "\x7b\x7d"
      else "\x7b\n" ++ indented (SourceUnit.text ⟨path, ns⟩) ++ "\x7d" := by
  have hlines : linesText 1 ns = indented (SourceUnit.text ⟨path, ns⟩) := linesText_succ h
  have hleft : indent 0 = "" := rfl
  rw [text, braces, hlines, hleft, String.append_empty]

/-- A function returns, in an array, an arrow function with a comment of two lines in its body. -/
def commented : Node :=
  .function ⟨"f", false, [], none⟩
    [.returnStmt (some (.array [.arrow false [] (.block [.comment "a\nb"])]))]

theorem text_block_commented :
    (∀ n ∈ [commented], ∀ m ∈ n.subtree, ∀ s ∈ m.rawTexts, '\n' ∉ s.toList) ∧
    (block [commented]).text 0 =
      "\x7b\n" ++ indented (SourceUnit.text ⟨⟨"/a.ts"⟩, [commented]⟩) ++ "\x7d" ∧
    (block [commented]).text 0 =
      "\x7b\n    function f() \x7b\n        return [() => \x7b\n" ++
        "            // a\n            // b\n        \x7d];\n    \x7d\n\x7d" := by
  have hraw : ∀ n ∈ [commented], ∀ m ∈ n.subtree, ∀ s ∈ m.rawTexts, '\n' ∉ s.toList := by
    decide +kernel
  exact ⟨hraw, text_block _ hraw, by decide +kernel⟩

end Node

end DateFields
