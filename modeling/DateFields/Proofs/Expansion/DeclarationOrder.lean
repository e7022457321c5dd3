import DateFields.Proofs.Expansion.Renaming
import DateFields.Proofs.Expansion.Sequence
import DateFields.Proofs.TypeTable.Canonical

/-!
# The order of declarations

The types of a program may be declared in any order, as long as the declarations of one name, of
which each adds to those before it, stay in theirs.  The types then have other numbers, but nothing
that is asked of the table depends on these.

* `Reordered` — lists of declarations that only differ by such an order;
* `Reordered.sameNames` — the tables that they make declare the same;
* `TypeTable.ofDeclarations_reordered` — the same expressions resolve, with the same dates inside,
  and units are expanded alike.
-/

namespace DateFields

/-- The declarations of every name are the same in both lists, and come in the same order. -/
def Reordered (types types' : List TypeDeclaration) : Prop :=
  ∀ name, types.filter (·.name = name) = types'.filter (·.name = name)

variable {types types' : List TypeDeclaration}

namespace TypeTable

theorem knownPrimitives_ofDeclarations (types : List TypeDeclaration) (calls : List CallBinding) :
    (ofDeclarations types calls).KnownPrimitives := by
  rw [ofDeclarations_eq]
  exact knownPrimitives_ofOperations _

/-- What a document declares under a name is told by its declarations of that name. -/
theorem declared?_ofDeclarations (types : List TypeDeclaration) (calls : List CallBinding)
    (name : String) : (ofDeclarations types calls).declared? name =
      (types.filter (·.name = name)).foldl (fun found d => some (found.elim d (·.extend d)))
        (new.declared? name) := by
  rw [ofDeclarations, declared?, entries_foldl_bind, ← declared?, wellFormed_new.declared?_foldl]

theorem bindings_ofDeclarations (types types' : List TypeDeclaration) (calls : List CallBinding) :
    (ofDeclarations types calls).bindings = (ofDeclarations types' calls).bindings := by
  refine bindings_foldl_bind calls ?_
  rw [bindings_foldl_declare, bindings_foldl_declare]

end TypeTable

/-- Tables of reordered declarations declare the same. -/
theorem Reordered.sameNames (h : Reordered types types') (calls : List CallBinding) :
    (TypeTable.ofDeclarations types calls).SameNames (TypeTable.ofDeclarations types' calls) := by
  refine TypeTable.sameNames_of_declared? (TypeTable.wellFormed_ofDeclarations types calls)
    (TypeTable.wellFormed_ofDeclarations types' calls)
    (TypeTable.knownPrimitives_ofDeclarations types calls)
    (TypeTable.knownPrimitives_ofDeclarations types' calls) (funext fun name => ?_)
  rw [TypeTable.declared?_ofDeclarations, TypeTable.declared?_ofDeclarations, h name]

namespace TypeTable

/-- In whatever order the types of a document are declared, the same expressions resolve, the same
paths are found inside them for every name of the timestamp type, and every unit is expanded in the
same way, under every configuration and with every way to resolve imports. -/
theorem ofDeclarations_reordered (calls : List CallBinding) (h : Reordered types types') :
    let t := ofDeclarations types calls
    let u := ofDeclarations types' calls
    (∀ e, (t.typeOf? e).isSome = (u.typeOf? e).isSome) ∧
    (∀ timestamp path e, t.pathsOf? timestamp path e = u.pathsOf? timestamp path e) ∧
    ∀ (p : Program) (unit : SourceUnit), ((p.expand unit).run t).1 = ((p.expand unit).run u).1 := by
  intro t u
  have ht : t.WellFormed := wellFormed_ofDeclarations types calls
  have hu : u.WellFormed := wellFormed_ofDeclarations types' calls
  have hnames : t.SameNames u := h.sameNames calls
  have hbindings : u.bindings = t.bindings := bindings_ofDeclarations types' types calls
  refine ⟨fun e => ?_, fun timestamp path e => hnames.pathsOf?_eq ht hu timestamp path e,
    fun p unit => (p.expand_congr unit ht hu hnames hbindings).symm⟩
  rw [ht.isSome_typeOf?, hu.isSome_typeOf?, hnames.names]

end TypeTable

namespace Sample

/-- An interface that is declared twice, one that extends it and that it refers to, and one with the
name of a primitive type. -/
def forward : List TypeDeclaration :=
  [⟨"Event", .ofInterface, [], [⟨"at", some (.reference "Date" [])⟩,
      ⟨"next", some (.reference "Order" [])⟩]⟩,
    ⟨"Order", .ofInterface, ["Event"], [⟨"placed", some (.reference "Date" [])⟩]⟩,
    ⟨"Event", .ofInterface, [], [⟨"closed", some (.reference "Date" [])⟩]⟩,
    ⟨"string", .ofInterface, [], [⟨"read", some (.reference "Date" [])⟩]⟩]

/-- The same declarations in another order, that of the two with one name kept. -/
def backward : List TypeDeclaration :=
  [⟨"string", .ofInterface, [], [⟨"read", some (.reference "Date" [])⟩]⟩,
    ⟨"Order", .ofInterface, ["Event"], [⟨"placed", some (.reference "Date" [])⟩]⟩,
    ⟨"Event", .ofInterface, [], [⟨"at", some (.reference "Date" [])⟩,
      ⟨"next", some (.reference "Order" [])⟩]⟩,
    ⟨"Event", .ofInterface, [], [⟨"closed", some (.reference "Date" [])⟩]⟩]

/-- The types have other numbers, and the same paths inside them. -/
theorem ofDeclarations_backward :
    let calls := [⟨⟨"/a.ts"⟩, some ⟨1⟩, none, ⟨.function, ⟨"/m/index.d.ts"⟩, some "toDates"⟩⟩]
    let t := TypeTable.ofDeclarations forward calls
    let u := TypeTable.ofDeclarations backward calls
    Reordered forward backward ∧
    t.typeOf? (.reference "Event" []) = some 13 ∧ u.typeOf? (.reference "Event" []) = some 15 ∧
    (t.pathsOf? "Date" [] (.reference "Event" []) =
      some [["at"], ["next", "placed"], ["next", "at"], ["next", "closed"], ["closed"]]) ∧
    (u.pathsOf? "Date" [] (.reference "Event" []) =
      some [["at"], ["next", "placed"], ["next", "at"], ["next", "closed"], ["closed"]]) ∧
    ((program.expand plainlyNamed).run t).1 = ((program.expand plainlyNamed).run u).1 := by
  intro calls t u
  have hreordered : Reordered forward backward := by
    intro name
    by_cases hevent : "Event" = name
    · subst hevent
      rfl
    by_cases horder : "Order" = name
    · subst horder
      rfl
    · simp [forward, backward, List.filter_cons, hevent, horder]
  have hpaths : t.pathsOf? "Date" [] (.reference "Event" []) =
      some [["at"], ["next", "placed"], ["next", "at"], ["next", "closed"], ["closed"]] := by
    decide +kernel
  obtain ⟨-, hsame, hexpand⟩ := TypeTable.ofDeclarations_reordered calls hreordered
  exact ⟨hreordered, by decide +kernel, by decide +kernel, hpaths, by rw [← hsame, hpaths],
    hexpand program plainlyNamed⟩

end Sample

end DateFields
