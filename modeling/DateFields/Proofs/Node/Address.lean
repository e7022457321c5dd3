import DateFields.Node.Names

/-!
# Addresses

* `Node.at?`, `SourceUnit.at?` — the node at an address: the positions of children on the way to it;
* `mem_subtree_of_at?` — what stands at an address stands in the subtree;
* `Node.forall_mem_subtree` — what holds of a node and passes to all children holds of the subtree;
* `Node.Everywhere` — a property of nodes and of all nodes below them.
-/

namespace DateFields

/-- The node at an address below a node. -/
def Node.at? (n : Node) : List Nat → Option Node
  | [] => some n
  | i :: address => n.children[i]?.bind (·.at? address)

/-- The node at an address in a unit, the statement first. -/
def SourceUnit.at? (u : SourceUnit) : List Nat → Option Node
  | [] => none
  | i :: address => u.statements[i]?.bind (·.at? address)

theorem Node.at?_cons {n m : Node} {i : Nat} {address : List Nat} :
    n.at? (i :: address) = some m ↔ ∃ c, n.children[i]? = some c ∧ c.at? address = some m :=
  Option.bind_eq_some_iff

theorem SourceUnit.at?_cons {u : SourceUnit} {m : Node} {i : Nat} {address : List Nat} :
    u.at? (i :: address) = some m ↔ ∃ c, u.statements[i]? = some c ∧ c.at? address = some m :=
  Option.bind_eq_some_iff

theorem Node.self_mem_subtree (n : Node) : n ∈ n.subtree := by
  rw [subtree_eq]
  exact List.mem_cons_self

theorem Node.mem_subtree_of_child {n c m : Node} (hc : c ∈ n.children) (hm : m ∈ c.subtree) :
    m ∈ n.subtree := by
  rw [subtree_eq]
  exact List.mem_cons_of_mem n (List.mem_flatMap.2 ⟨c, hc, hm⟩)

/-- What stands at an address below a node stands in its subtree. -/
theorem Node.mem_subtree_of_at? {n m : Node} {address : List Nat} (h : n.at? address = some m) :
    m ∈ n.subtree := by
  induction address generalizing n with
  | nil => cases h; exact self_mem_subtree _
  | cons i address ih =>
    obtain ⟨c, hc, h⟩ := Node.at?_cons.1 h
    exact mem_subtree_of_child (List.mem_of_getElem? hc) (ih h)

/-- What holds of a node and of every child of a node below it holds of everything below it. -/
theorem Node.forall_mem_subtree {P : Node → Prop} {n : Node} (hn : P n)
    (h : ∀ m ∈ n.subtree, ∀ c ∈ m.children, P c) : ∀ m ∈ n.subtree, P m := by
  induction n using Node.ind_children with
  | _ n ih =>
    intro m hm
    rw [subtree_eq, List.mem_cons, List.mem_flatMap] at hm
    rcases hm with rfl | ⟨c, hc, hm⟩
    · exact hn
    · exact ih c hc (h n n.self_mem_subtree c hc)
        (fun k hk => h k (mem_subtree_of_child hc hk)) m hm

/-- The property holds of the nodes and of all nodes below them. -/
def Node.Everywhere (P : Node → Prop) (ns : List Node) : Prop := ∀ n ∈ ns, ∀ m ∈ n.subtree, P m

namespace Node.Everywhere

variable {P : Node → Prop} {n : Node} {ns : List Node}

theorem head (h : Everywhere P (n :: ns)) : P n := h n List.mem_cons_self n n.self_mem_subtree

theorem tail (h : Everywhere P (n :: ns)) : Everywhere P ns := fun m hm =>
  h m (List.mem_cons_of_mem n hm)

theorem subset {ms : List Node} (h : Everywhere P ns) (hms : ms ⊆ ns) : Everywhere P ms :=
  fun m hm => h m (hms hm)

theorem mem (h : Everywhere P ns) (hn : n ∈ ns) : Everywhere P [n] :=
  h.subset (by simpa using hn)

theorem children (h : Everywhere P (n :: ns)) : Everywhere P n.children := fun _ hc m hm =>
  h n List.mem_cons_self m (mem_subtree_of_child hc hm)

theorem of_children (hn : P n) (h : Everywhere P n.children) : Everywhere P [n] := by
  intro m hm k hk
  rw [List.mem_singleton.1 hm, subtree_eq, List.mem_cons, List.mem_flatMap] at hk
  rcases hk with rfl | ⟨c, hc, hk⟩
  · exact hn
  · exact h c hc k hk

end Node.Everywhere

end DateFields
