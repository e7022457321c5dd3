import DateFields.Proofs.Node.Replies

/-!
# Asking about every child

A node is rebuilt from what a callback replies to its children.  The callback may keep a state, so
it matters about which nodes it is asked, and in which order.

* `repliesTo` — the replies of a callback to nodes, one after the other;
* `Asks` — a computation asks the callback about these nodes, in this order, and does with the
  replies what another one does with a queue of them;
* `asks_mapChildren` — rebuilding a node asks about its children;
* `hollow` — a node with nothing left of its children, and `hollow_withReplies` — which is the same
  for every rebuilt node;
* `mapChildren_spec` — what rebuilding a node does.
-/

namespace DateFields.Node

/-! ### Callbacks -/

section Callback

variable {σ α β : Type} (f : Node → StateM σ (Option Node))

/-- The replies of a callback to nodes, one after the other, and the state it is left in. -/
def repliesTo (ns : List Node) (s : σ) : List (Option Node) × σ := (ns.mapM f).run s

theorem repliesTo_cons (n : Node) (ns : List Node) (s : σ) :
    repliesTo f (n :: ns) s =
      (((f n).run s).1 :: (repliesTo f ns ((f n).run s).2).1,
        (repliesTo f ns ((f n).run s).2).2) := by
  rw [repliesTo, List.mapM_cons]
  rfl

theorem repliesTo_append (ns ms : List Node) (s : σ) : repliesTo f (ns ++ ms) s =
    ((repliesTo f ns s).1 ++ (repliesTo f ms (repliesTo f ns s).2).1,
      (repliesTo f ms (repliesTo f ns s).2).2) := by
  rw [repliesTo, List.mapM_append]
  rfl

theorem length_repliesTo (ns : List Node) (s : σ) :
    (repliesTo f ns s).1.length = ns.length := by
  induction ns generalizing s with
  | nil => rfl
  | cons n ns ih => rw [repliesTo_cons, List.length_cons, ih, List.length_cons]

/-- The computation asks the callback about the nodes, in this order, and about nothing else, and
makes of the replies what `queue` makes of them when it finds them in front. -/
def Asks (ns : List Node) (x : StateM σ α) (queue : Taking α) : Prop :=
  ∀ s rest, ∃ a, x.run s = (a, (repliesTo f ns s).2) ∧
    queue.run ((repliesTo f ns s).1 ++ rest) = (a, rest)

variable {f}

theorem Asks.pure (a : α) : Asks f [] (Pure.pure a) (Pure.pure a) := fun _ _ => ⟨a, rfl, rfl⟩

theorem Asks.bind {ns ms : List Node} {x : StateM σ α} {y : α → StateM σ β} {queue : Taking α}
    {next : α → Taking β} (h : Asks f ns x queue) (h' : ∀ a, Asks f ms (y a) (next a)) :
    Asks f (ns ++ ms) (x >>= y) (queue >>= next) := by
  intro s rest
  obtain ⟨a, hx, hqueue⟩ := h s ((repliesTo f ms (repliesTo f ns s).2).1 ++ rest)
  obtain ⟨b, hy, hnext⟩ := h' a (repliesTo f ns s).2 rest
  refine ⟨b, ?_, ?_⟩
  · rw [StateT.run_bind, hx, repliesTo_append]
    exact hy
  · rw [StateT.run_bind, repliesTo_append, List.append_assoc, hqueue]
    exact hnext

/-- Nothing is asked to build a value from another one. -/
theorem Asks.map {ns : List Node} {x : StateM σ α} {queue : Taking α} (h : Asks f ns x queue)
    (g : α → β) :
    Asks f ns (x >>= fun a => Pure.pure (g a)) (queue >>= fun a => Pure.pure (g a)) := by
  simpa using h.bind fun a => Asks.pure (g a)

variable (f)

theorem asks_reply (n : Node) : Asks f [n] (f n) (reply n) := by
  intro s rest
  exact ⟨_, rfl, rfl⟩

theorem asks_mapOne (n : Node) : Asks f [n] (mapOne f n) (mapOne reply n) :=
  (asks_reply f n).map (·.getD n)

theorem asks_mapOption (o : Option Node) : Asks f o.toList (mapOption f o) (mapOption reply o) := by
  cases o with
  | none => exact Asks.pure none
  | some n => exact (asks_mapOne f n).map some

theorem asks_mapEach (ns : List Node) : Asks f ns (mapEach f ns) (mapEach reply ns) := by
  induction ns with
  | nil => exact Asks.pure []
  | cons n ns ih => exact (asks_mapOne f n).bind fun _ => ih.map _

theorem asks_mapList (ns : List Node) : Asks f ns (mapList f ns) (mapList reply ns) := by
  induction ns with
  | nil => exact Asks.pure []
  | cons n ns ih => exact (asks_reply f n).bind fun _ => ih.map _

theorem asks_mapListOption (o : Option (List Node)) :
    Asks f (o.getD []) (mapListOption f o) (mapListOption reply o) := by
  cases o with
  | none => exact Asks.pure none
  | some ns => exact (asks_mapList f ns).map some

theorem asks_mapEntries (es : List (Declarator Node)) :
    Asks f (initialValues es) (mapEntries f es) (mapEntries reply es) := by
  induction es with
  | nil => exact Asks.pure []
  | cons e es ih =>
    have hvalues : initialValues (e :: es) = e.init.toList ++ initialValues es := by
      cases hinit : e.init <;> simp [initialValues, hinit]
    rw [hvalues]
    exact (asks_mapOption f e.init).bind fun _ => ih.map _

theorem asks_mapValues (es : List (String × Node)) :
    Asks f (es.map Prod.snd) (mapValues f es) (mapValues reply es) := by
  induction es with
  | nil => exact Asks.pure []
  | cons e es ih => exact (asks_mapOne f e.2).bind fun _ => ih.map _

/-- Rebuilding a node asks about its children. -/
theorem asks_mapChildren (n : Node) : Asks f n.children (mapChildren f n) n.rebuild := by
  have asked : ∀ {ns : List Node} {x : StateM σ Node} {queue : Taking Node},
      Asks f ns x queue → n.children = ns → Asks f n.children x queue :=
    fun h hns => hns ▸ h
  cases n with
  | importDecl | comment | verbatim | identifier | string | number => exact Asks.pure _
  | varDecl kind entries => exact asked ((asks_mapEntries f entries).map _) (map_child_fixed _)
  | expression e | exportDecl e | exportDefault e | throwStmt e | propertyAccess e | await e
  | unary _ e | arrow _ _ e => exact (asks_mapOne f e).map _
  | returnStmt o | classField _ _ _ o =>
    exact asked ((asks_mapOption f o).map _) (map_child_fixed _)
  | function _ ns | block ns | method _ _ ns | fragment ns =>
    exact asked ((asks_mapList f ns).map _) (map_child_listed _)
  | array ns => exact asked ((asks_mapEach f ns).map _) (map_child_fixed _)
  | object entries => exact asked ((asks_mapValues f entries).map _) (map_child_values _)
  | forOf _ _ e e' | whileLoop e e' | elementAccess e e' | binary _ e e' =>
    exact (asks_mapOne f e).bind fun _ => (asks_mapOne f e').map _
  | conditional e e' e'' =>
    exact (asks_mapOne f e).bind fun _ => (asks_mapOne f e').bind fun _ => (asks_mapOne f e'').map _
  | call _ callee _ args | newObject callee args =>
    refine asked ((asks_mapOne f callee).bind fun _ => (asks_mapEach f args).map _) ?_
    simp [children, slots, Slot.fixed, Function.comp_def]
  | ifElse condition thenBranch elseBranch =>
    refine asked ((asks_mapOne f condition).bind fun _ => (asks_mapOne f thenBranch).bind fun _ =>
      (asks_mapOption f elseBranch).map _) ?_
    simp [children, slots, Slot.fixed, Function.comp_def]
  | classDecl _ base members =>
    refine asked ((asks_mapOption f base).bind fun _ => (asks_mapList f members).map _) ?_
    simp [children, slots, Slot.fixed, Slot.listed, Function.comp_def]
  | forLoop init condition update body =>
    refine asked ((asks_mapOption f init).bind fun _ => (asks_mapOption f condition).bind fun _ =>
      (asks_mapOption f update).bind fun _ => (asks_mapOne f body).map _) ?_
    simp [children, slots, Slot.fixed, Function.comp_def]
  | tryCatch body _ handler finalizer =>
    refine asked ((asks_mapList f body).bind fun _ => (asks_mapListOption f handler).bind fun _ =>
      (asks_mapListOption f finalizer).map _) ?_
    simp [children, slots, Slot.listed, Function.comp_def]

/-- The rebuilt node is the one that the replies to the children make. -/
theorem run_mapChildren (n : Node) (s : σ) : (mapChildren f n).run s =
    (n.withReplies (repliesTo f n.children s).1, (repliesTo f n.children s).2) := by
  obtain ⟨m, hm, hqueue⟩ := asks_mapChildren f n s []
  rw [List.append_nil] at hqueue
  rw [hm, withReplies, show n.rebuild (repliesTo f n.children s).1 = (m, []) from hqueue]

/-- The callback with a list of all nodes that it has been asked about. -/
def logged (n : Node) : StateM (σ × List Node) (Option Node) := fun s =>
  (((f n).run s.1).1, ((f n).run s.1).2, s.2 ++ [n])

theorem repliesTo_logged (ns : List Node) (s : σ) (before : List Node) :
    repliesTo (logged f) ns (s, before) =
      ((repliesTo f ns s).1, (repliesTo f ns s).2, before ++ ns) := by
  induction ns generalizing s before with
  | nil => rw [List.append_nil]; rfl
  | cons n ns ih =>
    have hstep : (logged f n).run (s, before) =
      (((f n).run s).1, ((f n).run s).2, before ++ [n]) := rfl
    rw [repliesTo_cons, hstep, ih, repliesTo_cons, List.append_assoc, List.singleton_append]

end Callback

/-! ### What is no child -/

/-- Stands where a child has been. -/
def hole : Node := .identifier ""

/-- An entry of a declaration without its initial value. -/
def hollowEntry (e : Declarator Node) : Declarator Node :=
  { e with init := e.init.map fun _ => hole }

/-- A node without its children: with its kind, everything in it that is no node, and holes for
those of its children that it cannot do without. -/
def hollow : Node → Node
  | .importDecl clause specifier => .importDecl clause specifier
  | .varDecl kind entries => .varDecl kind (entries.map hollowEntry)
  | .expression _ => .expression hole
  | .returnStmt value => .returnStmt (value.map fun _ => hole)
  | .function head _ => .function head []
  | .block _ => .block []
  | .exportDecl _ => .exportDecl hole
  | .exportDefault _ => .exportDefault hole
  | .ifElse _ _ elseBranch => .ifElse hole hole (elseBranch.map fun _ => hole)
  | .forLoop init condition update _ =>
    .forLoop (init.map fun _ => hole) (condition.map fun _ => hole) (update.map fun _ => hole) hole
  | .forOf kind binding _ _ => .forOf kind binding hole hole
  | .whileLoop _ _ => .whileLoop hole hole
  | .tryCatch _ param handler finalizer =>
    .tryCatch [] param (handler.map fun _ => []) (finalizer.map fun _ => [])
  | .throwStmt _ => .throwStmt hole
  | .classDecl name base _ => .classDecl name (base.map fun _ => hole) []
  | .method isStatic head _ => .method isStatic head []
  | .classField name isStatic type init => .classField name isStatic type (init.map fun _ => hole)
  | .comment text => .comment text
  | .verbatim text => .verbatim text
  | .fragment _ => .fragment []
  | .identifier name => .identifier name
  | .string value => .string value
  | .number value => .number value
  | .array elements => .array (elements.map fun _ => hole)
  | .object entries => .object (entries.map fun e => (e.1, hole))
  | .propertyAccess _ name => .propertyAccess hole name
  | .elementAccess _ _ => .elementAccess hole hole
  | .call id _ typeArgs args => .call id hole typeArgs (args.map fun _ => hole)
  | .newObject _ args => .newObject hole (args.map fun _ => hole)
  | .await _ => .await hole
  | .conditional _ _ _ => .conditional hole hole hole
  | .binary operator _ _ => .binary operator hole hole
  | .unary operator _ => .unary operator hole
  | .arrow isAsync params _ => .arrow isAsync params hole

section Hollow

variable (rs : List (Option Node))

theorem map_hole_mapOption (o : Option Node) :
    (mapOption reply o rs).1.map (fun _ => hole) = o.map fun _ => hole := by
  cases o <;> rfl

theorem map_hole_mapEach (ns : List Node) :
    (mapEach reply ns rs).1.map (fun _ => hole) = ns.map fun _ => hole := by
  rw [mapEach_reply, List.map_const', List.map_const', length_keptChildren_fixed]

theorem map_nil_mapListOption (o : Option (List Node)) :
    (mapListOption reply o rs).1.map (fun _ => ([] : List Node)) = o.map fun _ => [] := by
  cases o <;> rfl

theorem map_hollowEntry_mapEntries (es : List (Declarator Node)) :
    (mapEntries reply es rs).1.map hollowEntry = es.map hollowEntry := by
  induction es generalizing rs with
  | nil => rfl
  | cons e es ih =>
    have hstep : mapEntries reply (e :: es) rs =
      ({ e with init := (mapOption reply e.init rs).1 } ::
          (mapEntries reply es (mapOption reply e.init rs).2).1,
        (mapEntries reply es (mapOption reply e.init rs).2).2) := rfl
    rw [hstep, List.map_cons, List.map_cons, ih, hollowEntry, map_hole_mapOption, hollowEntry]

theorem map_hole_mapValues (es : List (String × Node)) :
    (mapValues reply es rs).1.map (fun e => (e.1, hole)) = es.map fun e => (e.1, hole) := by
  have hkeys := (mapValues_reply rs es).2.1
  have hpair : (fun e : String × Node => (e.1, hole)) = (·, hole) ∘ Prod.fst := rfl
  rw [hpair, ← List.map_map, hkeys, List.map_map]

/-- Nothing of a node changes but its children. -/
theorem hollow_withReplies (n : Node) : (n.withReplies rs).hollow = n.hollow := by
  rw [withReplies]
  cases n <;> simp only [rebuild, mapChildren, taking_bind, taking_pure, hollow, map_hole_mapOption,
    map_hole_mapEach, map_nil_mapListOption, map_hollowEntry_mapEntries, map_hole_mapValues]

end Hollow

/-! ### Rebuilding -/

/-- What stays at places that have one reply each. -/
theorem keptChildren_eq_flatMap {slots : List Slot} {rs : List (Option Node)}
    (h : rs.length = slots.length) :
    keptChildren slots rs = (slots.zip rs).flatMap fun place => place.1.kept place.2 := by
  induction slots generalizing rs with
  | nil => rfl
  | cons s slots ih =>
    obtain ⟨r, rs, rfl⟩ := List.exists_cons_of_length_eq_add_one h
    rw [keptChildren_cons, ih (Nat.succ.inj h), List.zip_cons_cons, List.flatMap_cons]

/-- Rebuilding a node asks the callback about the children of the node and nothing else, in their
order, and hands its state on from one to the next.  The children of the rebuilt node are the
replies; a child without a reply is left out of a list and kept everywhere else.  Nothing else of
the node changes. -/
theorem mapChildren_spec {σ : Type} (f : Node → StateM σ (Option Node)) (n : Node) (s : σ) :
    let replies := (repliesTo f n.children s).1
    let final := (repliesTo f n.children s).2
    let rebuilt := ((n.mapChildren f).run s).1
    ((n.mapChildren f).run s).2 = final ∧
    (∀ before, ((n.mapChildren (logged f)).run (s, before)).2 = (final, before ++ n.children)) ∧
    replies.length = n.slots.length ∧
    rebuilt.children = (n.slots.zip replies).flatMap (fun place => place.1.kept place.2) ∧
    rebuilt.hollow = n.hollow := by
  intro replies final rebuilt
  have hrun : (n.mapChildren f).run s = (n.withReplies replies, final) := run_mapChildren f n s
  have hlength : replies.length = n.slots.length := by
    rw [length_repliesTo, children, List.length_map]
  refine ⟨by rw [hrun], fun before => ?_, hlength, ?_, ?_⟩
  · rw [run_mapChildren, repliesTo_logged]
  · rw [show rebuilt = n.withReplies replies from congrArg Prod.fst hrun, children_withReplies,
      keptChildren_eq_flatMap hlength]
  · rw [show rebuilt = n.withReplies replies from congrArg Prod.fst hrun, hollow_withReplies]

end DateFields.Node
