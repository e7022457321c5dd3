import DateFields.Proofs.TypeExpr.Document
import DateFields.Proofs.Node.Replies
import DateFields.Node.Document

/-!
# Reading trees

Every document of a node, with whatever liberties it is written, is read as that node, as long as it
fits (`Node.readable`).  The proof goes along the children of the node, with one case for every kind:
what a field holds is read by the lemma for fields of its sort.

* `reads_parameter`, `reads_importClause`, `reads_callId` and the like — the parts of nodes that are
  no nodes themselves;
* `Loose.node`, `Loose.nodes`, `Loose.nodesOrNone` and the like — fields that hold nodes.
-/

namespace DateFields

open Json

/-! ### Parts of nodes -/

theorem reads_varKind (room : Nat) (k : VarKind) : Reads room VarKind.ofJson? k.toJson k := by
  intro w hw _
  cases k <;> cases hw <;> rfl

theorem reads_typeExpr (room : Nat) (e : TypeExpr) :
    Reads room (TypeExpr.decode (room + 1)) e.toJson e :=
  (TypeExpr.reads_toJson e (room + 1)).mono (Nat.le_succ room)

theorem reads_parameter (p : Parameter) (room : Nat) :
    Reads room (Parameter.decode room) p.toJson p := by
  refine reads_object _ (fun room ws hws => ?_) room
  have hname := hws.text "name" rfl rfl
  have htype := hws.optional "type" rfl rfl (TypeExpr.decode_null _) fun e _ => reads_typeExpr room e
  simp [Parameter.decode, fields?, hname, htype]

theorem reads_importName (n : ImportName) (room : Nat) :
    Reads room ImportName.ofJson? n.toJson n := by
  refine reads_object (fun _ => ImportName.ofJson?) (fun room ws hws => ?_) room
  have hname := hws.text "name" rfl rfl
  have halias := hws.optional "alias" rfl rfl rfl fun s _ => reads_string room s
  simp [ImportName.ofJson?, fields?, hname, halias]

theorem reads_importClause (c : ImportClause) (room : Nat) :
    Reads room ImportClause.ofJson? c.toJson c := by
  refine reads_object (fun _ => ImportClause.ofJson?) (fun room ws hws => ?_) room
  have hdefault := hws.optional "default" rfl rfl rfl fun s _ => reads_string room s
  have hnamespace := hws.optional "namespace" rfl rfl rfl fun s _ => reads_string room s
  have hnamed := hws.items "named" rfl rfl fun n _ => reads_importName n room
  simp [ImportClause.ofJson?, fields?, hdefault, hnamespace, hnamed]

theorem Numeral.natural?_ofNat (n : Nat) : (Numeral.ofNat n).natural? = some n := by
  have hvalue : Numeral.digitsValue (Nat.toDigits 10 n) = n :=
    Nat.ofDigitChars_toDigits (by decide) (by decide)
  simp [Numeral.natural?, Numeral.ofNat, hvalue]

namespace CallId

theorem ofJson?_toJson (id : CallId) : ofJson? id.toJson = some id := by
  have hlt : id.value.toNat < UInt32.size := UInt32.toNat_lt_size id.value
  simp [ofJson?, toJson, ofNat, naturalBelow?, Numeral.natural?_ofNat, hlt]

/-- Only the number that calls have by default is written like it. -/
theorem eq_synthetic_of_toJson {id : CallId} (h : id.toJson = ofNat 4294967295) :
    id = synthetic := by
  have hread : ofJson? (ofNat 4294967295) = some synthetic := by decide +kernel
  rw [← h, ofJson?_toJson, Option.some_inj] at hread
  exact hread

end CallId

theorem reads_callId (room : Nat) (id : CallId) : Reads room CallId.ofJson? id.toJson id := by
  intro w hw _
  cases hw
  exact CallId.ofJson?_toJson id

namespace Json

variable {room : Nat} {fields ws : Fields}

/-- The head of a function is read from the fields of the function. -/
theorem Loose.functionHead (hws : Loose room fields ws) {hd : FunctionHead}
    (hname : Json.field? fields "name" = some (some (.string hd.name)))
    (hasync : Json.field? fields "is_async" = some (some (.bool hd.isAsync)))
    (hparams : Json.field? fields "params" = some (some (.array (hd.params.map Parameter.toJson))))
    (hreturn : Json.field? fields "return_type" =
      some (some (.ofOption TypeExpr.toJson hd.returnType)))
    (hkind : kind? fields = some "function" ∨ kind? fields = some "method") :
    FunctionHead.decode room ws = some hd := by
  rcases hkind with hkind | hkind
  all_goals
    have hname := hws.text "name" hname (by rw [hkind]; rfl)
    have hasync := hws.flag "is_async" hasync (by rw [hkind]; rfl)
    have hparams := hws.items "params" hparams (by rw [hkind]; rfl) fun p _ => reads_parameter p room
    have hreturn := hws.optional "return_type" hreturn (by rw [hkind]; rfl)
      (TypeExpr.decode_null _) fun e _ => TypeExpr.reads_toJson e room
    simp [FunctionHead.decode, hname, hasync, hparams, hreturn]

/-- The keyword of a declaration is read. -/
theorem Loose.varKind (hws : Loose room fields ws) {k : VarKind}
    (hfield : Json.field? fields "var_kind" = some (some k.toJson))
    (hdefault : defaults.lookup (kind? fields, "var_kind") = some (.string "var")) :
    Json.defaulted ws "var_kind" VarKind.functionScoped VarKind.ofJson? = some k :=
  hws.defaulted "var_kind" hfield hdefault rfl (reads_varKind room k) fun hk => by
    cases k with
    | functionScoped => rfl
    | blockScoped | constant => simp [VarKind.toJson, VarKind.keyword] at hk

end Json

namespace Node

/-! ### Nodes -/

theorem decode_null (depth : Nat) : decode depth .null = none := by
  cases depth <;> rfl

theorem toJsonAll_eq (ns : List Node) : toJsonAll ns = ns.map toJson := by
  induction ns with
  | nil => rw [toJsonAll, List.map_nil]
  | cons n ns ih => rw [toJsonAll, ih, List.map_cons]

theorem toJsonOption_eq (o : Option Node) : toJsonOption o = .ofOption toJson o := by
  cases o <;> rw [toJsonOption] <;> rfl

theorem toJsonAllOption_eq (o : Option (List Node)) :
    toJsonAllOption o = .ofOption (fun ns => .array (ns.map toJson)) o := by
  cases o <;> simp [toJsonAllOption, toJsonAll_eq, ofOption]

theorem toJsonEntries_eq (es : List (Declarator Node)) : toJsonEntries es = es.map toJsonEntry := by
  induction es with
  | nil => rw [toJsonEntries, List.map_nil]
  | cons e es ih => rw [toJsonEntries, ih, List.map_cons]

theorem toJsonValues_eq (es : List (String × Node)) : toJsonValues es = es.map toJsonValue := by
  induction es with
  | nil => rw [toJsonValues, List.map_nil]
  | cons e es ih => rw [toJsonValues, ih, List.map_cons]

/-- Every document of the node, with whatever liberties it is written, is read as the node. -/
def Readable (n : Node) : Prop := ∀ room, Reads room (decode room) n.toJson n

end Node

namespace Json

variable {room : Nat} {fields ws : Fields} (hws : Loose room fields ws)

include hws

theorem Loose.node {n : Node} (key : String)
    (hfield : Json.field? fields key = some (some n.toJson))
    (hdefault : defaults.lookup (kind? fields, key) = none) (hn : n.Readable) :
    Json.required ws key (Node.decode room) = some n :=
  hws.required key hfield hdefault (Node.decode_null room) (hn room)

theorem Loose.nodeOption {o : Option Node} (key : String)
    (hfield : Json.field? fields key = some (some (.ofOption Node.toJson o)))
    (hdefault : defaults.lookup (kind? fields, key) = none) (ho : ∀ n ∈ o.toList, n.Readable) :
    Json.optional ws key (Node.decode room) = some o :=
  hws.optional key hfield hdefault (Node.decode_null room) fun n hn => ho n (by simp [hn]) room

theorem Loose.nodes {ns : List Node} (key : String)
    (hfield : Json.field? fields key = some (some (.array (ns.map Node.toJson))))
    (hdefault : defaults.lookup (kind? fields, key) = none) (hns : ∀ n ∈ ns, n.Readable) :
    Json.required ws key (list? (Node.decode room)) = some ns :=
  hws.required key hfield hdefault rfl (reads_list fun n hn => hns n hn room)

theorem Loose.nodesOption {o : Option (List Node)} (key : String)
    (hfield : Json.field? fields key =
      some (some (.ofOption (fun ns => .array (ns.map Node.toJson)) o)))
    (hdefault : defaults.lookup (kind? fields, key) = none) (ho : ∀ n ∈ o.getD [], n.Readable) :
    Json.optional ws key (list? (Node.decode room)) = some o :=
  hws.optional key hfield hdefault rfl fun ns hns =>
    reads_list fun n hn => ho n (by simpa [hns] using hn) room

theorem Loose.nodesOrNone {ns : List Node} (key : String)
    (hfield : Json.field? fields key = some (some (.array (ns.map Node.toJson))))
    (hdefault : defaults.lookup (kind? fields, key) = some (.array []))
    (hns : ∀ n ∈ ns, n.Readable) :
    Json.defaulted ws key [] (list? (Node.decode room)) = some ns :=
  hws.items key hfield hdefault fun n hn => hns n hn room

end Json

namespace Node

/-- The entry of a declaration is read when its initial value is. -/
theorem reads_toJsonEntry {e : Declarator Node} (h : ∀ n ∈ e.init.toList, n.Readable) (room : Nat) :
    Reads room (decodeEntry room (decode room)) (toJsonEntry e) e := by
  obtain ⟨name, type, init⟩ := e
  rw [toJsonEntry, toJsonOption_eq]
  refine reads_object (fun room => decodeEntry room (decode room)) (fun room ws hws => ?_) room
  have hname := hws.text "name" rfl rfl
  have htype := hws.optional "type" rfl rfl (TypeExpr.decode_null _) fun e _ => reads_typeExpr room e
  have hinit := hws.optional "initializer" rfl rfl (decode_null (room + 1)) fun n hn =>
    (h n (by simp [hn]) (room + 1)).mono (Nat.le_succ room)
  simp [decodeEntry, fields?, hname, htype, hinit]

/-- The entry of an object is read when its value is. -/
theorem reads_toJsonValue {e : String × Node} (h : e.2.Readable) (room : Nat) :
    Reads room (decodeValue (decode room)) (toJsonValue e) e := by
  obtain ⟨name, n⟩ := e
  rw [toJsonValue]
  refine reads_object (fun room => decodeValue (decode room)) (fun room ws hws => ?_) room
  have hname := hws.text "name" rfl rfl
  have hvalue := hws.required "value" rfl rfl (decode_null (room + 1))
    ((h (room + 1)).mono (Nat.le_succ room))
  simp [decodeValue, fields?, hname, hvalue]

/-- A node is read when its fields are. -/
theorem readable_of_fields {n : Node} {kind : String} {fields : Fields}
    (hn : n.toJson = kinded kind fields)
    (hkind : field? (("kind", .string kind) :: fields) "kind" = some (some (.string kind)))
    (hdefault : defaults.lookup (kind? (("kind", .string kind) :: fields), "kind") = none)
    (h : ∀ room ws, Loose room (("kind", .string kind) :: fields) ws →
      decodeFields room (decode room) ws kind = some n) : n.Readable := by
  intro room
  rw [hn]
  refine reads_object _ (fun room ws hws => ?_) room
  have hkind := hws.text "kind" hkind hdefault
  simp [decode, fields?, hkind, h room ws hws]

theorem mem_initialValues {entries : List (Declarator Node)} {e : Declarator Node} {n : Node}
    (he : e ∈ entries) (hn : n ∈ e.init.toList) : n ∈ initialValues entries :=
  List.mem_filterMap.2 ⟨e, he, Option.mem_toList.1 hn⟩

/-- A node is read when its children are. -/
theorem readable_of_children (n : Node) (ih : ∀ c ∈ n.children, c.Readable) : n.Readable := by
  -- what is known of the children, taken apart into the fields that hold them
  cases n <;> simp only [children, slots, List.map_append, List.map_cons, List.map_nil,
    map_child_fixed, map_child_listed, Slot.fixed, List.forall_mem_append,
    List.forall_mem_cons] at ih
  case importDecl clause specifier =>
    refine readable_of_fields (by rw [toJson]) rfl rfl fun room ws hws => ?_
    have hclause := hws.optional "clause" rfl rfl rfl fun c _ => reads_importClause c room
    have hspecifier := hws.text "module_specifier" rfl rfl
    simp [decodeFields, hclause, hspecifier]
  case varDecl kind entries =>
    refine readable_of_fields (by rw [toJson, toJsonEntries_eq]) rfl rfl fun room ws hws => ?_
    have hkind := hws.varKind rfl rfl
    have hentries := hws.required "declarations" rfl rfl rfl (reads_list fun e he =>
      reads_toJsonEntry (fun n hn => ih n (mem_initialValues he hn)) room)
    simp [decodeFields, hkind, hentries]
  case expression e =>
    obtain ⟨he, -⟩ := ih
    refine readable_of_fields (by rw [toJson]) rfl rfl fun room ws hws => ?_
    have he := hws.node "expression" rfl rfl he
    simp [decodeFields, he]
  case returnStmt value =>
    refine readable_of_fields (by rw [toJson, toJsonOption_eq]) rfl rfl fun room ws hws => ?_
    have hvalue := hws.nodeOption "value" rfl rfl ih
    simp [decodeFields, hvalue]
  case function head body =>
    refine readable_of_fields (by rw [toJson, toJsonAll_eq]) rfl rfl fun room ws hws => ?_
    have hhead := hws.functionHead rfl rfl rfl rfl (.inl rfl)
    have hbody := hws.nodesOrNone "body" rfl rfl ih
    simp [decodeFields, hhead, hbody]
  case block statements =>
    refine readable_of_fields (by rw [toJson, toJsonAll_eq]) rfl rfl fun room ws hws => ?_
    have hstatements := hws.nodes "statements" rfl rfl ih
    simp [decodeFields, hstatements]
  case exportDecl declaration =>
    obtain ⟨hd, -⟩ := ih
    refine readable_of_fields (by rw [toJson]) rfl rfl fun room ws hws => ?_
    have hd := hws.node "declaration" rfl rfl hd
    simp [decodeFields, hd]
  case exportDefault e =>
    obtain ⟨he, -⟩ := ih
    refine readable_of_fields (by rw [toJson]) rfl rfl fun room ws hws => ?_
    have he := hws.node "expression" rfl rfl he
    simp [decodeFields, he]
  case ifElse condition thenBranch elseBranch =>
    obtain ⟨⟨hc, ht, -⟩, he⟩ := ih
    refine readable_of_fields (by rw [toJson, toJsonOption_eq]) rfl rfl fun room ws hws => ?_
    have hc := hws.node "condition" rfl rfl hc
    have ht := hws.node "then_branch" rfl rfl ht
    have he := hws.nodeOption "else_branch" rfl rfl he
    simp [decodeFields, hc, ht, he]
  case forLoop init condition update body =>
    obtain ⟨⟨⟨hi, hc⟩, hu⟩, hb, -⟩ := ih
    refine readable_of_fields (by rw [toJson, toJsonOption_eq, toJsonOption_eq, toJsonOption_eq])
      rfl rfl fun room ws hws => ?_
    have hi := hws.nodeOption "init" rfl rfl hi
    have hc := hws.nodeOption "condition" rfl rfl hc
    have hu := hws.nodeOption "update" rfl rfl hu
    have hb := hws.node "body" rfl rfl hb
    simp [decodeFields, hi, hc, hu, hb]
  case forOf kind binding iterable body =>
    obtain ⟨hi, hb, -⟩ := ih
    refine readable_of_fields (by rw [toJson]) rfl rfl fun room ws hws => ?_
    have hkind := hws.varKind rfl rfl
    have hbinding := hws.text "binding" rfl rfl
    have hi := hws.node "iterable" rfl rfl hi
    have hb := hws.node "body" rfl rfl hb
    simp [decodeFields, hkind, hbinding, hi, hb]
  case whileLoop condition body =>
    obtain ⟨hc, hb, -⟩ := ih
    refine readable_of_fields (by rw [toJson]) rfl rfl fun room ws hws => ?_
    have hc := hws.node "condition" rfl rfl hc
    have hb := hws.node "body" rfl rfl hb
    simp [decodeFields, hc, hb]
  case tryCatch body param handler finalizer =>
    obtain ⟨⟨hb, hh⟩, hf⟩ := ih
    refine readable_of_fields (by rw [toJson, toJsonAll_eq, toJsonAllOption_eq, toJsonAllOption_eq])
      rfl rfl fun room ws hws => ?_
    have hb := hws.nodes "block" rfl rfl hb
    have hparam := hws.optional "catch_param" rfl rfl rfl fun s _ => reads_string room s
    have hh := hws.nodesOption "handler" rfl rfl hh
    have hf := hws.nodesOption "finalizer" rfl rfl hf
    simp [decodeFields, hb, hparam, hh, hf]
  case throwStmt value =>
    obtain ⟨hv, -⟩ := ih
    refine readable_of_fields (by rw [toJson]) rfl rfl fun room ws hws => ?_
    have hv := hws.node "value" rfl rfl hv
    simp [decodeFields, hv]
  case classDecl name base members =>
    obtain ⟨hb, hm⟩ := ih
    refine readable_of_fields (by rw [toJson, toJsonOption_eq, toJsonAll_eq])
      rfl rfl fun room ws hws => ?_
    have hname := hws.optional "name" rfl rfl rfl fun s _ => reads_string room s
    have hb := hws.nodeOption "extends" rfl rfl hb
    have hm := hws.nodesOrNone "members" rfl rfl hm
    simp [decodeFields, hname, hb, hm]
  case method isStatic head body =>
    refine readable_of_fields (by rw [toJson, toJsonAll_eq]) rfl rfl fun room ws hws => ?_
    have hstatic := hws.flag "is_static" rfl rfl
    have hhead := hws.functionHead rfl rfl rfl rfl (.inr rfl)
    have hbody := hws.nodesOrNone "body" rfl rfl ih
    simp [decodeFields, hstatic, hhead, hbody]
  case classField name isStatic type init =>
    refine readable_of_fields (by rw [toJson, toJsonOption_eq]) rfl rfl fun room ws hws => ?_
    have hname := hws.text "name" rfl rfl
    have hstatic := hws.flag "is_static" rfl rfl
    have htype := hws.optional "type" rfl rfl (TypeExpr.decode_null room) fun e _ =>
      TypeExpr.reads_toJson e room
    have hinit := hws.nodeOption "initializer" rfl rfl ih
    simp [decodeFields, hname, hstatic, htype, hinit]
  case comment text =>
    refine readable_of_fields (by rw [toJson]) rfl rfl fun room ws hws => ?_
    have htext := hws.text "text" rfl rfl
    simp [decodeFields, htext]
  case verbatim text =>
    refine readable_of_fields (by rw [toJson]) rfl rfl fun room ws hws => ?_
    have htext := hws.text "text" rfl rfl
    simp [decodeFields, htext]
  case fragment parts =>
    refine readable_of_fields (by rw [toJson, toJsonAll_eq]) rfl rfl fun room ws hws => ?_
    have hparts := hws.nodes "parts" rfl rfl ih
    simp [decodeFields, hparts]
  case identifier name =>
    refine readable_of_fields (by rw [toJson]) rfl rfl fun room ws hws => ?_
    have hname := hws.text "name" rfl rfl
    simp [decodeFields, hname]
  case string value =>
    refine readable_of_fields (by rw [toJson]) rfl rfl fun room ws hws => ?_
    have hvalue := hws.text "value" rfl rfl
    simp [decodeFields, hvalue]
  case number value =>
    refine readable_of_fields (by rw [toJson]) rfl rfl fun room ws hws => ?_
    have hvalue := hws.text "value" rfl rfl
    simp [decodeFields, hvalue]
  case array elements =>
    refine readable_of_fields (by rw [toJson, toJsonAll_eq]) rfl rfl fun room ws hws => ?_
    have helements := hws.nodes "elements" rfl rfl ih
    simp [decodeFields, helements]
  case object entries =>
    refine readable_of_fields (by rw [toJson, toJsonValues_eq]) rfl rfl fun room ws hws => ?_
    have hentries := hws.required "properties" rfl rfl rfl (reads_list fun e he =>
      reads_toJsonValue (ih e.2 (List.mem_map.2 ⟨_, List.mem_map_of_mem he, rfl⟩)) room)
    simp [decodeFields, hentries]
  case propertyAccess target name =>
    obtain ⟨ht, -⟩ := ih
    refine readable_of_fields (by rw [toJson]) rfl rfl fun room ws hws => ?_
    have ht := hws.node "object" rfl rfl ht
    have hname := hws.text "name" rfl rfl
    simp [decodeFields, ht, hname]
  case elementAccess target index =>
    obtain ⟨ht, hi, -⟩ := ih
    refine readable_of_fields (by rw [toJson]) rfl rfl fun room ws hws => ?_
    have ht := hws.node "object" rfl rfl ht
    have hi := hws.node "index" rfl rfl hi
    simp [decodeFields, ht, hi]
  case call id callee typeArgs args =>
    obtain ⟨hc, ha⟩ := ih
    refine readable_of_fields (by rw [toJson, toJsonAll_eq, TypeExpr.toJsonAll_eq])
      rfl rfl fun room ws hws => ?_
    have hid := hws.defaulted "id" rfl rfl rfl (reads_callId room id) CallId.eq_synthetic_of_toJson
    have hc := hws.node "callee" rfl rfl hc
    have htypes := hws.items "type_arguments" rfl rfl fun e _ => TypeExpr.reads_toJson e room
    have ha := hws.nodesOrNone "arguments" rfl rfl ha
    simp [decodeFields, hid, hc, htypes, ha]
  case newObject callee args =>
    obtain ⟨hc, ha⟩ := ih
    refine readable_of_fields (by rw [toJson, toJsonAll_eq]) rfl rfl fun room ws hws => ?_
    have hc := hws.node "callee" rfl rfl hc
    have ha := hws.nodesOrNone "arguments" rfl rfl ha
    simp [decodeFields, hc, ha]
  case await e =>
    obtain ⟨he, -⟩ := ih
    refine readable_of_fields (by rw [toJson]) rfl rfl fun room ws hws => ?_
    have he := hws.node "expression" rfl rfl he
    simp [decodeFields, he]
  case conditional condition whenTrue whenFalse =>
    obtain ⟨hc, ht, hf, -⟩ := ih
    refine readable_of_fields (by rw [toJson]) rfl rfl fun room ws hws => ?_
    have hc := hws.node "condition" rfl rfl hc
    have ht := hws.node "when_true" rfl rfl ht
    have hf := hws.node "when_false" rfl rfl hf
    simp [decodeFields, hc, ht, hf]
  case binary operator left right =>
    obtain ⟨hl, hr, -⟩ := ih
    refine readable_of_fields (by rw [toJson]) rfl rfl fun room ws hws => ?_
    have hoperator := hws.text "operator" rfl rfl
    have hl := hws.node "left" rfl rfl hl
    have hr := hws.node "right" rfl rfl hr
    simp [decodeFields, hoperator, hl, hr]
  case unary operator operand =>
    obtain ⟨ho, -⟩ := ih
    refine readable_of_fields (by rw [toJson]) rfl rfl fun room ws hws => ?_
    have hoperator := hws.text "operator" rfl rfl
    have ho := hws.node "operand" rfl rfl ho
    simp [decodeFields, hoperator, ho]
  case arrow isAsync params body =>
    obtain ⟨hb, -⟩ := ih
    refine readable_of_fields (by rw [toJson]) rfl rfl fun room ws hws => ?_
    have hasync := hws.flag "is_async" rfl rfl
    have hparams := hws.items "params" rfl rfl fun p _ => reads_parameter p room
    have hb := hws.node "body" rfl rfl hb
    simp [decodeFields, hasync, hparams, hb]

/-- Every document of a node is read as the node. -/
theorem readable (n : Node) : n.Readable := by
  induction n using ind_children with
  | _ n ih => exact readable_of_children n ih

end Node

end DateFields
