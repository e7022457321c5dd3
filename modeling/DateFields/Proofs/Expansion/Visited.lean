import DateFields.Expansion.Basic
import DateFields.Proofs.Node.Address
import DateFields.Proofs.TypeTable.Growth
import DateFields.TypeTable.Document

/-!
# Visited nodes

An expansion visits the nodes of a unit from above.  Of a call that it expands it only visits the
first two arguments: the callee and all further arguments are dropped, and with them the calls that
stand there.

* `Program.isExpandable` — the calls to be expanded; they stay the same while types are entered;
* `Program.reached` — the nodes that are visited, in source order;
* `Program.mem_reached_iff` — these are the nodes at the addresses that do not lead into a dropped
  part of a call to be expanded; without such calls they are all nodes (`reached_eq_subtree`);
* `Sample` — a small program with an import and a call of the marker.
-/

namespace DateFields

/-! ### Calls to be expanded -/

/-- A call of the marker with a type argument and a payload. -/
def Program.isExpandable (p : Program) (types : TypeTable) (file : Path) : Node → Bool
  | n@(.call _ _ (_ :: _) (_ :: _)) => p.isMarkerCall types file n
  | _ => false

/-- The arguments that an expanded call keeps. -/
def Node.keptArgs (n : Node) : List Node := (n.children.drop 1).take 2

/-- A node and the nodes below it, without those inside the callee and inside the third and the later
arguments of a call to be expanded. -/
def Program.reached (p : Program) (types : TypeTable) (file : Path) : Node → List Node :=
  Node.foldUp fun n below =>
    n :: (if p.isExpandable types file n then (below.drop 1).take 2 else below).flatten

/-- The address leads into the callee, or into the third or a later argument, of a call to be
expanded. -/
def Program.Dropped (p : Program) (t : TypeTable) (file : Path) (n : Node) (address : List Nat) :
    Prop :=
  ∃ call i rest c, address = call ++ i :: rest ∧ n.at? call = some c ∧
    p.isExpandable t file c = true ∧ ¬(1 ≤ i ∧ i ≤ 2)

variable {p : Program} {t u : TypeTable} {file : Path}

theorem Program.reached_eq (n : Node) : p.reached t file n =
    n :: (if p.isExpandable t file n then n.keptArgs else n.children).flatMap (p.reached t file) := by
  rw [reached, Node.foldUp_eq, Node.keptArgs, List.flatMap_def]
  split
  · rw [List.map_take, List.map_drop]
  · rfl

theorem Program.isMarkerCall_congr (h : u.bindings = t.bindings) (n : Node) :
    p.isMarkerCall u file n = p.isMarkerCall t file n := by
  cases n with
  | call id callee typeArgs args =>
    rw [isMarkerCall, isMarkerCall, TypeTable.declarationOf?_congr h]
  | _ => rfl

/-- The calls to be expanded are the same in tables with the same bindings. -/
theorem Program.isExpandable_congr (h : u.bindings = t.bindings) (n : Node) :
    p.isExpandable u file n = p.isExpandable t file n := by
  cases n with
  | call id callee typeArgs args =>
    cases typeArgs <;> cases args <;> try rfl
    rw [isExpandable, isExpandable, isMarkerCall_congr h]
  | _ => rfl

theorem Program.isMarkerImport_of_isExpandable {n : Node} (h : p.isExpandable t file n = true) :
    p.isMarkerImport file n = false := by
  cases n with
  | call => rfl
  | _ => cases h

theorem Program.isExpandable_of_isMarkerImport {n : Node} (h : p.isMarkerImport file n = true) :
    p.isExpandable t file n = false := by
  cases n with
  | importDecl => rfl
  | _ => cases h

theorem Node.children_of_isMarkerImport {n : Node} (h : p.isMarkerImport file n = true) :
    n.children = [] := by
  cases n with
  | importDecl => rfl
  | _ => cases h

theorem Program.reached_of_isMarkerImport {n : Node} (h : p.isMarkerImport file n = true) :
    p.reached t file n = [n] := by
  rw [reached_eq, isExpandable_of_isMarkerImport h, Node.children_of_isMarkerImport h]
  rfl

theorem Program.reached_of_isExpandable {n : Node} (h : p.isExpandable t file n = true) :
    p.reached t file n = n :: n.keptArgs.flatMap (p.reached t file) := by
  rw [reached_eq, if_pos h]

theorem Program.reached_of_not_isExpandable {n : Node} (h : p.isExpandable t file n = false) :
    p.reached t file n = n :: n.children.flatMap (p.reached t file) := by
  rw [reached_eq, if_neg (by rw [h]; exact Bool.false_ne_true)]

/-! ### Addresses of visited nodes -/

theorem Program.dropped_cons {n c : Node} {i : Nat} {address : List Nat}
    (hc : n.children[i]? = some c) : p.Dropped t file n (i :: address) ↔
      (p.isExpandable t file n = true ∧ ¬(1 ≤ i ∧ i ≤ 2)) ∨ p.Dropped t file c address := by
  constructor
  · rintro ⟨call, j, rest, m, haddress, hm, hexp, hj⟩
    cases call with
    | nil =>
      cases hm
      cases haddress
      exact .inl ⟨hexp, hj⟩
    | cons k call =>
      cases haddress
      obtain ⟨c', hc', hm⟩ := Node.at?_cons.1 hm
      cases hc.symm.trans hc'
      exact .inr ⟨call, j, rest, m, rfl, hm, hexp, hj⟩
  · rintro (⟨hexp, hi⟩ | ⟨call, j, rest, m, rfl, hm, hexp, hj⟩)
    · exact ⟨[], i, address, n, rfl, rfl, hexp, hi⟩
    · exact ⟨i :: call, j, rest, m, rfl, Node.at?_cons.2 ⟨c, hc, hm⟩, hexp, hj⟩

theorem Node.mem_keptArgs {n c : Node} :
    c ∈ n.keptArgs ↔ ∃ i, (1 ≤ i ∧ i ≤ 2) ∧ n.children[i]? = some c := by
  rw [keptArgs, List.mem_iff_getElem?]
  simp only [List.getElem?_take, List.getElem?_drop]
  constructor
  · rintro ⟨i, hi⟩
    by_cases hlt : i < 2
    · rw [if_pos hlt] at hi
      exact ⟨1 + i, by omega, hi⟩
    · rw [if_neg hlt] at hi
      cases hi
  · rintro ⟨i, hkept, hi⟩
    refine ⟨i - 1, ?_⟩
    rw [if_pos (by omega), Nat.add_sub_cancel' hkept.1, hi]

theorem Node.Everywhere.keptArgs {P : Node → Prop} {n : Node} {ns : List Node}
    (h : Everywhere P (n :: ns)) : Everywhere P n.keptArgs := by
  intro c hc
  obtain ⟨i, -, hi⟩ := mem_keptArgs.1 hc
  exact h.children c (List.mem_of_getElem? hi)

/-- The nodes that are visited are those at the addresses that are not dropped. -/
theorem Program.mem_reached_iff {n m : Node} : m ∈ p.reached t file n ↔
    ∃ address, n.at? address = some m ∧ ¬p.Dropped t file n address := by
  induction n using Node.ind_children with
  | _ n ih =>
    have hvisited : ∀ c, c ∈ (if p.isExpandable t file n then n.keptArgs else n.children) ↔
        ∃ i, n.children[i]? = some c ∧ ¬(p.isExpandable t file n = true ∧ ¬(1 ≤ i ∧ i ≤ 2)) := by
      intro c
      cases hexp : p.isExpandable t file n with
      | true => simp [Node.mem_keptArgs, and_comm]
      | false => simp [List.mem_iff_getElem?]
    rw [reached_eq, List.mem_cons, List.mem_flatMap]
    constructor
    · rintro (rfl | ⟨c, hc, hm⟩)
      · refine ⟨[], rfl, ?_⟩
        rintro ⟨call, i, rest, c, haddress, -⟩
        simp at haddress
      · obtain ⟨i, hi, hkept⟩ := (hvisited c).1 hc
        obtain ⟨address, hat, hdropped⟩ := (ih c (List.mem_of_getElem? hi)).1 hm
        exact ⟨i :: address, Node.at?_cons.2 ⟨c, hi, hat⟩,
          fun h => ((dropped_cons hi).1 h).elim hkept hdropped⟩
    · rintro ⟨address, hat, hdropped⟩
      cases address with
      | nil => exact .inl (Option.some.inj hat).symm
      | cons i address =>
        obtain ⟨c, hi, hat⟩ := Node.at?_cons.1 hat
        rw [dropped_cons hi, not_or] at hdropped
        exact .inr ⟨c, (hvisited c).2 ⟨i, hi, hdropped.1⟩,
          (ih c (List.mem_of_getElem? hi)).2 ⟨address, hat, hdropped.2⟩⟩

theorem Program.mem_subtree_of_mem_reached {n m : Node} (h : m ∈ p.reached t file n) :
    m ∈ n.subtree := by
  obtain ⟨address, hat, -⟩ := mem_reached_iff.1 h
  exact Node.mem_subtree_of_at? hat

/-- When no visited node is a call to be expanded, nothing is dropped. -/
theorem Program.reached_eq_subtree {n : Node}
    (h : ∀ m ∈ p.reached t file n, p.isExpandable t file m = false) :
    p.reached t file n = n.subtree := by
  induction n using Node.ind_children with
  | _ n ih =>
    have hn : p.isExpandable t file n = false := by
      apply h
      rw [reached_eq]
      exact List.mem_cons_self
    rw [reached_of_not_isExpandable hn] at h ⊢
    rw [Node.subtree_eq, List.flatMap_def, List.flatMap_def, List.map_congr_left]
    intro c hc
    exact ih c hc fun m hm => h m (List.mem_cons_of_mem n (List.mem_flatMap.2 ⟨c, hc, hm⟩))

/-! ### A sample -/

namespace Sample

/-- A program that imports the marker by the name of its package. -/
def program : Program :=
  ⟨.empty, .registered (.addPackage .empty "ts-transformer-dates" ⟨"/m/index.js"⟩),
    .ofMarker ⟨⟨"/m/index.js"⟩, ⟨"/m/index.d.ts"⟩, Marker.standardFunction⟩⟩

/-- A type with a date, and the calls with number 1 in a file bound to the marker. -/
def types : TypeTable :=
  .ofDeclarations [⟨"Event", .ofInterface, [], [⟨"at", some (.reference "Date" [])⟩]⟩]
    [⟨⟨"/a.ts"⟩, some ⟨1⟩, none, ⟨.function, ⟨"/m/index.d.ts"⟩, some "toDates"⟩⟩]

/-- `import { toDates } from "ts-transformer-dates";` -/
def markerImport : Node :=
  .importDecl (some ⟨none, none, [⟨"toDates", none⟩]⟩) "ts-transformer-dates"

/-- `toDates<Event>(raw)` -/
def markerCall : Node :=
  .call ⟨1⟩ (.identifier "toDates") [.reference "Event" []] [.identifier "raw"]

end Sample

end DateFields
