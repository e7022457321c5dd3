import DateFields.Node.Names
import Mathlib.Data.List.Forall2

/-!
# Nodes with replaced children

What becomes of a node when its children are replaced or left out.

* `Slot.kept`, `keptChildren` — what stays at a place, and at all places, given the replies;
* `children_withReplies` — the children of the rebuilt node are those that stay;
* `withReplies_map_some` — a node whose children are all replied with themselves stays the same;
* `ownNames_withReplies`, `chain?_withReplies` — what a rebuilt node has in common with the node.
-/

namespace DateFields.Node

/-! ### What stays -/

/-- What stays at a place, given the reply for its child: the reply, or without one the child,
unless it stands in a list. -/
def Slot.kept (s : Slot) : Option Node → List Node
  | some n => [n]
  | none => if s.inList then [] else [s.child]

/-- What stays at places that take their replies from the front of a queue. -/
def keptChildren : List Slot → List (Option Node) → List Node
  | [], _ => []
  | s :: slots, rs => s.kept rs.head?.join ++ keptChildren slots rs.tail

@[simp] theorem keptChildren_nil (rs : List (Option Node)) : keptChildren [] rs = [] := rfl

@[simp] theorem keptChildren_cons (s : Slot) (slots : List Slot) (r : Option Node)
    (rs : List (Option Node)) :
    keptChildren (s :: slots) (r :: rs) = s.kept r ++ keptChildren slots rs := rfl

theorem keptChildren_append (slots slots' : List Slot) (rs : List (Option Node)) :
    keptChildren (slots ++ slots') rs =
      keptChildren slots rs ++ keptChildren slots' (rs.drop slots.length) := by
  induction slots generalizing rs with
  | nil => rfl
  | cons s slots ih =>
    rw [List.cons_append, keptChildren, keptChildren, ih, List.append_assoc, List.length_cons,
      List.drop_tail]

/-- A child that its parent cannot do without stays, or its reply takes its place. -/
theorem kept_fixed (n : Node) (r : Option Node) : (Slot.fixed n).kept r = [r.getD n] := by
  cases r <;> rfl

/-- A child of a list stays only as its reply. -/
theorem kept_listed (n : Node) (r : Option Node) : (Slot.listed n).kept r = r.toList := by
  cases r <;> rfl

theorem length_keptChildren_fixed (ns : List Node) (rs : List (Option Node)) :
    (keptChildren (ns.map .fixed) rs).length = ns.length := by
  induction ns generalizing rs with
  | nil => rfl
  | cons n ns ih => simp [keptChildren, kept_fixed, ih]

/-- Replies for a list that may leave out every child. -/
theorem keptChildren_listed (ns : List Node) {rs : List (Option Node)} (h : rs.length = ns.length) :
    keptChildren (ns.map .listed) rs = rs.filterMap id := by
  induction ns generalizing rs with
  | nil => rw [List.length_eq_zero_iff.1 h]; rfl
  | cons n ns ih =>
    obtain ⟨r, rs, rfl⟩ := List.exists_cons_of_length_eq_add_one h
    rw [List.map_cons, keptChildren_cons, kept_listed, ih (Nat.succ.inj h)]
    cases r <;> rfl

/-! ### Queues of replies -/

section Queues

variable (rs : List (Option Node))

theorem mapOne_reply (n : Node) : mapOne reply n rs = (rs.head?.join.getD n, rs.tail) := rfl

theorem mapOption_reply (o : Option Node) :
    (mapOption reply o rs).1.toList = keptChildren (o.toList.map .fixed) rs ∧
      (mapOption reply o rs).2 = rs.drop o.toList.length := by
  cases o with
  | none => exact ⟨rfl, rfl⟩
  | some n =>
    refine ⟨?_, List.drop_one.symm⟩
    rw [Option.toList_some, List.map_cons, keptChildren, kept_fixed]
    rfl

theorem mapEach_reply (ns : List Node) :
    mapEach reply ns rs = (keptChildren (ns.map .fixed) rs, rs.drop ns.length) := by
  induction ns generalizing rs with
  | nil => rfl
  | cons n ns ih =>
    have hstep : mapEach reply (n :: ns) rs =
      (rs.head?.join.getD n :: (mapEach reply ns rs.tail).1, (mapEach reply ns rs.tail).2) := rfl
    rw [hstep, ih, List.map_cons, keptChildren, kept_fixed, List.length_cons, List.drop_tail]
    rfl

theorem mapList_reply (ns : List Node) :
    mapList reply ns rs = (keptChildren (ns.map .listed) rs, rs.drop ns.length) := by
  induction ns generalizing rs with
  | nil => rfl
  | cons n ns ih =>
    have hstep : mapList reply (n :: ns) rs =
      (rs.head?.join.toList ++ (mapList reply ns rs.tail).1, (mapList reply ns rs.tail).2) := rfl
    rw [hstep, ih, List.map_cons, keptChildren, kept_listed, List.length_cons, List.drop_tail]

theorem mapListOption_reply (o : Option (List Node)) :
    (mapListOption reply o rs).1.getD [] = keptChildren ((o.getD []).map .listed) rs ∧
      (mapListOption reply o rs).2 = rs.drop (o.getD []).length := by
  cases o with
  | none => exact ⟨rfl, rfl⟩
  | some ns =>
    have hstep : mapListOption reply (some ns) rs =
      (some (mapList reply ns rs).1, (mapList reply ns rs).2) := rfl
    rw [hstep, mapList_reply]
    exact ⟨rfl, rfl⟩

theorem mapEntries_reply (es : List (Declarator Node)) :
    initialValues (mapEntries reply es rs).1 = keptChildren ((initialValues es).map .fixed) rs ∧
      (mapEntries reply es rs).1.map Declarator.name = es.map Declarator.name ∧
      (mapEntries reply es rs).2 = rs.drop (initialValues es).length := by
  induction es generalizing rs with
  | nil => exact ⟨rfl, rfl, rfl⟩
  | cons e es ih =>
    obtain ⟨name, type, init⟩ := e
    have hstep : mapEntries reply (⟨name, type, init⟩ :: es) rs =
      (⟨name, type, (mapOption reply init rs).1⟩ ::
          (mapEntries reply es (mapOption reply init rs).2).1,
        (mapEntries reply es (mapOption reply init rs).2).2) := rfl
    have hvalues : ∀ (i : Option Node) (ds : List (Declarator Node)),
        initialValues (⟨name, type, i⟩ :: ds) = i.toList ++ initialValues ds := by
      intro i ds
      cases i <;> rfl
    obtain ⟨hkept, hdrop⟩ := mapOption_reply rs init
    obtain ⟨ihkept, ihnames, ihdrop⟩ := ih (rs.drop init.toList.length)
    rw [hstep, hdrop, hvalues, hvalues, hkept, ihkept, List.map_cons, ihnames, ihdrop,
      List.map_append, keptChildren_append, List.length_map, List.drop_drop, List.length_append]
    exact ⟨rfl, rfl, rfl⟩

theorem mapValues_reply (es : List (String × Node)) :
    (mapValues reply es rs).1.map Prod.snd = keptChildren (es.map fun e => .fixed e.2) rs ∧
      (mapValues reply es rs).1.map Prod.fst = es.map Prod.fst ∧
      (mapValues reply es rs).2 = rs.drop es.length := by
  induction es generalizing rs with
  | nil => exact ⟨rfl, rfl, rfl⟩
  | cons e es ih =>
    have hstep : mapValues reply (e :: es) rs =
      ((e.1, rs.head?.join.getD e.2) :: (mapValues reply es rs.tail).1,
        (mapValues reply es rs.tail).2) := rfl
    obtain ⟨hkept, hkeys, hdrop⟩ := ih rs.tail
    rw [hstep]
    simp [hkept, hkeys, hdrop, keptChildren, kept_fixed]

theorem taking_bind {α β : Type} (m : Taking α) (f : α → Taking β) :
    (m >>= f) rs = f (m rs).1 (m rs).2 := rfl

theorem taking_pure {α : Type} (a : α) : (pure a : Taking α) rs = (a, rs) := rfl

end Queues

/-! ### Rebuilt nodes -/

theorem child_fixed (n : Node) : (Slot.fixed n).child = n := rfl

theorem map_child_values (es : List (String × Node)) :
    (es.map fun e => Slot.fixed e.2).map Slot.child = es.map Prod.snd := by
  simp [Function.comp_def, Slot.fixed]

/-- The children of a rebuilt node are those that stay. -/
theorem children_withReplies (n : Node) (rs : List (Option Node)) :
    (n.withReplies rs).children = keptChildren n.slots rs := by
  rw [withReplies]
  cases n <;>
    simp only [rebuild, mapChildren, taking_bind, taking_pure, children, slots, mapOne_reply,
      mapEach_reply, mapList_reply, (mapOption_reply _ _).1, (mapOption_reply _ _).2,
      (mapListOption_reply _ _).1, (mapListOption_reply _ _).2, (mapEntries_reply _ _).1,
      (mapValues_reply _ _).1, map_child_fixed, map_child_listed, map_child_values,
      List.map_append, List.map_cons, List.map_nil, keptChildren_append, List.length_map,
      List.length_append, List.drop_drop]
  all_goals simp [keptChildren, kept_fixed, child_fixed, ← List.drop_one]

/-- A rebuilt call differs in its callee and in its arguments. -/
theorem withReplies_call (id : CallId) (callee : Node) (typeArgs : List TypeExpr) (args : List Node)
    (rs : List (Option Node)) : (call id callee typeArgs args).withReplies rs =
      .call id (rs.head?.join.getD callee) typeArgs (keptChildren (args.map .fixed) rs.tail) := by
  have hstep : (call id callee typeArgs args).withReplies rs =
    .call id (rs.head?.join.getD callee) typeArgs (mapEach reply args rs.tail).1 := rfl
  rw [hstep, mapEach_reply]

/-- A rebuilt node brings in the names of the node. -/
theorem ownNames_withReplies (n : Node) (rs : List (Option Node)) :
    (n.withReplies rs).ownNames = n.ownNames := by
  cases n with
  | varDecl kind entries => exact (mapEntries_reply rs entries).2.1
  | _ => rfl

/-- The name and the properties of a plain name or of a chain of property accesses on one. -/
def chain? : Node → Option (String × List String)
  | .identifier name => some (name, [])
  | .propertyAccess e name => e.chain?.map fun c => (c.1, c.2 ++ [name])
  | _ => none

/-- The dotted text of a chain. -/
theorem dottedName?_eq (n : Node) :
    n.dottedName? = n.chain?.map fun c => c.2.foldl (fun text name => text ++ "." ++ name) c.1 := by
  fun_induction dottedName? n with
  | case1 name => rfl
  | case2 e name ih => rw [ih, chain?]; cases e.chain? <;> simp
  | case3 n hname haccess =>
    cases n with
    | identifier name => exact absurd rfl (hname name)
    | propertyAccess e name => exact absurd rfl (haccess e name)
    | _ => rfl

/-- The name at the front of a chain stands below it. -/
theorem identifier_mem_of_chain? {n : Node} {name : String} {names : List String}
    (h : n.chain? = some (name, names)) : .identifier name ∈ n.subtree := by
  fun_induction chain? n generalizing names with
  | case1 name => cases h; rw [subtree_eq]; exact List.mem_cons_self
  | case2 e property ih =>
    obtain ⟨c, hc, heq⟩ := Option.map_eq_some_iff.1 h
    obtain ⟨rfl, -⟩ := Prod.mk.inj heq
    rw [subtree_eq]
    exact List.mem_cons_of_mem _ (List.mem_flatMap.2 ⟨e, List.mem_cons_self, ih hc⟩)
  | case3 n => cases h

/-- A rebuilt node is the same chain, when this holds of the children. -/
theorem chain?_withReplies {n : Node} {rs : List (Option Node)}
    (h : List.Forall₂ (fun c r => (Option.getD r c).chain? = c.chain?) n.children rs) :
    (n.withReplies rs).chain? = n.chain? := by
  cases n with
  | propertyAccess target name =>
    cases h with
    | @cons _ r _ rs hr _ =>
      rw [child_fixed] at hr
      show (Option.getD r target).chain?.map _ = target.chain?.map _
      rw [hr]
  | _ => rfl

/-! ### The same children -/

theorem mapOption_map_some (o : Option Node) (rs : List (Option Node)) :
    mapOption reply o (o.toList.map some ++ rs) = (o, rs) := by
  cases o <;> rfl

theorem mapEach_map_some (ns : List Node) (rs : List (Option Node)) :
    mapEach reply ns (ns.map some ++ rs) = (ns, rs) := by
  induction ns with
  | nil => rfl
  | cons n ns ih =>
    show (n :: (mapEach reply ns (ns.map some ++ rs)).1,
      (mapEach reply ns (ns.map some ++ rs)).2) = _
    rw [ih]

theorem mapList_map_some (ns : List Node) (rs : List (Option Node)) :
    mapList reply ns (ns.map some ++ rs) = (ns, rs) := by
  induction ns with
  | nil => rfl
  | cons n ns ih =>
    show (n :: (mapList reply ns (ns.map some ++ rs)).1,
      (mapList reply ns (ns.map some ++ rs)).2) = _
    rw [ih]

theorem mapListOption_map_some (o : Option (List Node)) (rs : List (Option Node)) :
    mapListOption reply o ((o.getD []).map some ++ rs) = (o, rs) := by
  cases o with
  | none => rfl
  | some ns =>
    show (some (mapList reply ns (ns.map some ++ rs)).1,
      (mapList reply ns (ns.map some ++ rs)).2) = _
    rw [mapList_map_some]

theorem mapEntries_map_some (es : List (Declarator Node)) (rs : List (Option Node)) :
    mapEntries reply es ((initialValues es).map some ++ rs) = (es, rs) := by
  induction es with
  | nil => rfl
  | cons e es ih =>
    obtain ⟨name, type, init⟩ := e
    have hrest : mapOption reply init ((initialValues (⟨name, type, init⟩ :: es)).map some ++ rs) =
        (init, (initialValues es).map some ++ rs) := by
      cases init <;> rfl
    show (⟨name, type, (mapOption reply init _).1⟩ ::
        (mapEntries reply es (mapOption reply init _).2).1,
      (mapEntries reply es (mapOption reply init _).2).2) = _
    rw [hrest, ih]

theorem mapValues_map_some (es : List (String × Node)) (rs : List (Option Node)) :
    mapValues reply es ((es.map Prod.snd).map some ++ rs) = (es, rs) := by
  induction es with
  | nil => rfl
  | cons e es ih =>
    show ((e.1, e.2) :: (mapValues reply es ((es.map Prod.snd).map some ++ rs)).1,
      (mapValues reply es ((es.map Prod.snd).map some ++ rs)).2) = _
    rw [ih]

theorem mapOne_some (n c : Node) (rs : List (Option Node)) :
    mapOne reply n (some c :: rs) = (c, rs) := rfl

/-- A node whose children are all replied with themselves stays as it is. -/
theorem withReplies_map_some (n : Node) : n.withReplies (n.children.map some) = n := by
  rw [withReplies, ← List.append_nil (n.children.map some)]
  cases n <;>
    simp only [rebuild, mapChildren, taking_bind, taking_pure, children, slots, mapOne_some,
      mapEach_map_some, mapList_map_some, mapOption_map_some,
      mapListOption_map_some, mapEntries_map_some, mapValues_map_some,
      map_child_fixed, map_child_listed, map_child_values, child_fixed, List.map_append,
      List.map_cons, List.map_nil, List.append_assoc, List.cons_append, List.nil_append]

/-! ### Other children -/

theorem mapEach_replies (f : Node → Node) (ns : List Node) (rs : List (Option Node)) :
    mapEach reply ns ((ns.map f).map some ++ rs) = (ns.map f, rs) := by
  induction ns with
  | nil => rfl
  | cons n ns ih =>
    show (f n :: (mapEach reply ns ((ns.map f).map some ++ rs)).1,
      (mapEach reply ns ((ns.map f).map some ++ rs)).2) = _
    rw [ih, List.map_cons]

theorem mapList_replies (f : Node → Node) (ns : List Node) (rs : List (Option Node)) :
    mapList reply ns ((ns.map f).map some ++ rs) = (ns.map f, rs) := by
  induction ns with
  | nil => rfl
  | cons n ns ih =>
    show (f n :: (mapList reply ns ((ns.map f).map some ++ rs)).1,
      (mapList reply ns ((ns.map f).map some ++ rs)).2) = _
    rw [ih, List.map_cons]

/-! ### What stays, one by one -/

/-- What stays is a reply or a child. -/
theorem mem_keptChildren {slots : List Slot} {rs : List (Option Node)} {m : Node}
    (h : m ∈ keptChildren slots rs) : some m ∈ rs ∨ m ∈ slots.map Slot.child := by
  induction slots generalizing rs with
  | nil => cases h
  | cons s slots ih =>
    rw [keptChildren, List.mem_append] at h
    rcases h with h | h
    · cases rs with
      | nil => by_cases hlist : s.inList = true <;> simp_all [Slot.kept]
      | cons r rs => cases r <;> by_cases hlist : s.inList = true <;> simp_all [Slot.kept]
    · rcases ih h with h | h
      · exact .inl (List.mem_of_mem_tail h)
      · exact .inr (List.mem_cons_of_mem _ h)

/-- What is gathered from the children that stay is gathered from the replies, when nothing is to be
gathered from a child that stays without one. -/
theorem flatMap_keptChildren {α : Type} (f : Node → List α) {slots : List Slot}
    {rs : List (Option Node)}
    (h : List.Forall₂ (fun s r => r = none → s.inList = false → f s.child = []) slots rs) :
    (keptChildren slots rs).flatMap f = rs.flatMap (·.elim [] f) := by
  induction h with
  | nil => rfl
  | @cons s r slots rs hr _ ih =>
    rw [keptChildren_cons, List.flatMap_append, ih, List.flatMap_cons]
    congr 1
    cases r with
    | some n => simp [Slot.kept]
    | none => cases hlist : s.inList <;> simp [Slot.kept, hlist, hr rfl]

end DateFields.Node
