import DateFields.Proofs.Node.Document

/-!
# Documents are read back

A tree is read back from its document, with whatever liberties that is written, exactly when the
document keeps to the limits of the reader: so many levels of nesting, and numbers and strings that
can be held in memory.  Members and source units skip the fields that they do not know, so these are
held to nothing.
-/

namespace DateFields

open Json

/-! ### Type expressions and members -/

namespace TypeExpr

/-- A type expression is read back from the documents that fit. -/
theorem ofJson?_eq_some_iff {e : TypeExpr} {room : Nat} {v : Json} (h : e.toJson.Loosens v) :
    ofJson? room v = some e ↔ v.fits room = true := by
  rw [ofJson?, Option.ite_none_right_eq_some]
  exact and_iff_left_of_imp (reads_toJson e room v h)

theorem fits_of_ofJson? {e : TypeExpr} {room : Nat} {v : Json} (h : ofJson? room v = some e) :
    v.fits room = true :=
  (Option.ite_none_right_eq_some.1 h).1

theorem ofJson?_null (room : Nat) : ofJson? room .null = none := by
  rw [ofJson?, decode_null, ite_self]

end TypeExpr

/-- A member is read back from the documents in which its own fields fit. -/
theorem PropertyOf.ofJson?_eq_some_iff {m : Property} {room : Nat} {v : Json}
    (h : (PropertyOf.toJson m).Loosens v) :
    PropertyOf.ofJson? room v = some m ↔ v.namedFit ["name", "type"] room = true := by
  rw [PropertyOf.toJson, TypeExpr.toJsonMember_eq] at h
  cases h with
  | @object _ kept added ws hkept hadded horder =>
    cases room with
    | zero => simp [PropertyOf.ofJson?, enter, namedFit]
    | succ room =>
      rw [namedFit_object, PropertyOf.ofJson?, enter, PropertyOf.decode]
      constructor
      · intro hread
        simp only [fields?, Option.bind_eq_bind, Option.bind_some, Option.bind_eq_some_iff] at hread
        obtain ⟨name, hname, type, htype, -⟩ := hread
        rintro ⟨key, w⟩ hw hkey
        rcases List.mem_pair.1 hkey with rfl | rfl
        · rw [string?_eq_some (decode_of_required hname hw)]
          rfl
        · rcases decode_of_optional htype hw with rfl | ⟨e, he⟩
          · rfl
          · exact TypeExpr.fits_of_ofJson? he
      · intro hfits
        have hws : Loose room _ ws := ⟨.object hkept hadded horder, hfits⟩
        have hname := hws.text "name" rfl rfl
        have htype := hws.optional "type" rfl rfl (TypeExpr.ofJson?_null room) fun e _ w hw hfit =>
          (TypeExpr.ofJson?_eq_some_iff hw).2 hfit
        simp [fields?, hname, htype]

/-! ### Nodes and source units -/

namespace Node

/-- A node is read back from the documents that fit. -/
theorem ofJson?_eq_some_iff {n : Node} {room : Nat} {v : Json} (h : n.toJson.Loosens v) :
    ofJson? room v = some n ↔ v.fits room = true := by
  rw [ofJson?, Option.ite_none_right_eq_some]
  exact and_iff_left_of_imp (readable n room v h)

theorem fits_of_ofJson? {n : Node} {room : Nat} {v : Json} (h : ofJson? room v = some n) :
    v.fits room = true :=
  (Option.ite_none_right_eq_some.1 h).1

/-- The statements of a unit are read back. -/
theorem reads_listWithin (ns : List Node) (room : Nat) :
    Reads room (listWithin ofJson? room) (.array (ns.map toJson)) ns := by
  cases room with
  | zero =>
    rintro w ⟨⟩ hfits
    cases hfits
  | succ room => exact reads_list_succ fun n _ w hw hfits => (ofJson?_eq_some_iff hw).2 hfits

theorem fits_of_listWithin {ns : List Node} {room : Nat} {v : Json}
    (h : listWithin ofJson? room v = some ns) : v.fits room = true := by
  cases room with
  | zero => cases h
  | succ room =>
    obtain ⟨vs, rfl, hvs⟩ := decode_of_list? h
    rw [fits, itemsFit_iff]
    intro v hv
    obtain ⟨n, hn⟩ := hvs v hv
    exact fits_of_ofJson? hn

end Node

/-- A source unit is read back from the documents in which its own fields fit. -/
theorem SourceUnit.ofJson?_eq_some_iff {u : SourceUnit} {room : Nat} {v : Json}
    (h : u.toJson.Loosens v) :
    SourceUnit.ofJson? room v = some u ↔ v.namedFit ["file_name", "statements"] room = true := by
  rw [SourceUnit.toJson, Node.toJsonAll_eq] at h
  cases h with
  | @object _ kept added ws hkept hadded horder =>
    cases room with
    | zero => simp [SourceUnit.ofJson?, structureWithin, enter, namedFit]
    | succ room =>
      rw [namedFit_object, SourceUnit.ofJson?, structureWithin, enter]
      constructor
      · intro hread
        simp only [fields?, Option.bind_eq_bind, Option.bind_some, Option.bind_eq_some_iff] at hread
        obtain ⟨name, hname, statements, hstatements, -⟩ := hread
        rintro ⟨key, w⟩ hw hkey
        rcases List.mem_pair.1 hkey with rfl | rfl
        · rw [string?_eq_some (decode_of_required hname hw)]
          rfl
        · exact Node.fits_of_listWithin (decode_of_defaulted hstatements hw)
      · intro hfits
        have hws : Loose room _ ws := ⟨.object hkept hadded horder, hfits⟩
        have hname := hws.text "file_name" rfl rfl
        have hstatements := hws.defaulted "statements" rfl rfl (listWithin_null room)
          (Node.reads_listWithin u.statements room) fun hempty => by simpa using hempty
        simp [fields?, hname, hstatements]

/-! ### All documents -/

/-- Every tree is read back from every document of it, with whatever liberties that is written,
exactly when the document keeps to the limits. -/
theorem read_back_iff_fits (room : Nat) (v : Json) :
    (∀ e : TypeExpr, e.toJson.Loosens v →
      (TypeExpr.ofJson? room v = some e ↔ v.fits room = true)) ∧
    (∀ m : Property, (PropertyOf.toJson m).Loosens v →
      (PropertyOf.ofJson? room v = some m ↔ v.namedFit ["name", "type"] room = true)) ∧
    (∀ n : Node, n.toJson.Loosens v → (Node.ofJson? room v = some n ↔ v.fits room = true)) ∧
    ∀ u : SourceUnit, u.toJson.Loosens v →
      (SourceUnit.ofJson? room v = some u ↔ v.namedFit ["file_name", "statements"] room = true) :=
  ⟨fun _ => TypeExpr.ofJson?_eq_some_iff, fun _ => PropertyOf.ofJson?_eq_some_iff,
    fun _ => Node.ofJson?_eq_some_iff, fun _ => SourceUnit.ofJson?_eq_some_iff⟩

namespace Sample

/-- A call without a number, its fields in another order, all that has a default left out, and a
field more. -/
def looseCall : Json :=
  .object [("note", .null),
    ("callee", .object [("name", .string "f"), ("kind", .string "identifier")]),
    ("kind", .string "call")]

theorem loosens_looseCall :
    (Node.call .synthetic (.identifier "f") [] []).toJson.Loosens looseCall := by
  have hcallee : (Node.identifier "f").toJson.Loosens
      (.object [("name", .string "f"), ("kind", .string "identifier")]) :=
    @Loosens.object _ [("kind", .string "identifier"), ("name", .string "f")] [] _
      (.keep (.string _) (.keep (.string _) .nil)) (by simp) (.swap _ _ _)
  refine @Loosens.object _ [("kind", .string "call"),
    ("callee", .object [("name", .string "f"), ("kind", .string "identifier")])] [("note", .null)] _
    (.keep (.string _) (.leaveOut (.inr rfl) (.keep hcallee (.leaveOut (.inr rfl)
      (.leaveOut (.inr rfl) .nil))))) (by simp) ?_
  exact (List.reverse_perm _).symm

theorem read_back_looseCall :
    (Node.call .synthetic (.identifier "f") [] []).toJson.Loosens looseCall ∧
    looseCall.fits nestingLimit = true ∧
    Node.ofJson? nestingLimit looseCall = some (.call .synthetic (.identifier "f") [] []) := by
  have hfits : looseCall.fits nestingLimit = true := by decide
  obtain ⟨-, -, hnode, -⟩ := read_back_iff_fits nestingLimit looseCall
  exact ⟨loosens_looseCall, hfits, (hnode _ loosens_looseCall).2 hfits⟩

/-- `Date` between so many parentheses. -/
def parenthesizedDate : Nat → TypeExpr
  | 0 => .keyword "Date"
  | n + 1 => .parenthesized (parenthesizedDate n)

/-- A name, with a field more that holds a number beyond the range of doubles. -/
def notedName : Json :=
  .object [("kind", .string "identifier"), ("name", .string "x"),
    ("n", .number ⟨false, ['1'], none, some 999⟩)]

/-- A type nested too deep is not read back from its own document, and a name not from a document
that notes too large a number beside it. -/
theorem not_read_back :
    ((parenthesizedDate 127).toJson.Loosens (parenthesizedDate 127).toJson ∧
      TypeExpr.ofJson? nestingLimit (parenthesizedDate 127).toJson = none) ∧
    (Node.identifier "x").toJson.Loosens notedName ∧
      Node.ofJson? nestingLimit notedName = none := by
  refine ⟨⟨.refl _, by decide +kernel⟩, ?_, by decide +kernel⟩
  exact @Loosens.object _ [("kind", .string "identifier"), ("name", .string "x")]
    [("n", .number ⟨false, ['1'], none, some 999⟩)] _
    (.keep (.string _) (.keep (.string _) .nil)) (by simp) (.refl _)

end Sample

end DateFields
