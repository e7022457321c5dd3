import DateFields.Proofs.Expansion.Output
import DateFields.Proofs.Text.FreshName

/-!
# Names inside declared texts

A declaration holds the text of what it declares, which need not be one plain name: `...rest` and
`{ a, b }` declare names inside a longer text.  The name of the support module is chosen apart from
whole texts, and so it may be one that such a text declares.

* `Node.declaredTexts`, `Node.nameTexts` — the texts in which a node declares names or has them;
* `SourceUnit.Captures` — a name is a word of such a text somewhere in a unit;
* `Program.not_captures_binding_iff` — the name of the support module is only captured by a text that
  is no plain name.
-/

namespace DateFields

/-! ### Texts with names in them -/

/-- The texts of the names that a node declares; of a plain name, its own. -/
def Node.declaredTexts : Node → List String
  | .importDecl clause _ => clause.elim [] ImportClause.localNames
  | .varDecl _ entries => entries.map Declarator.name
  | .function head _ => head.name :: head.params.map Parameter.name
  | .forOf _ binding _ _ => [binding]
  | .tryCatch _ param _ _ => param.toList
  | .classDecl name _ _ => name.toList
  | .method _ head _ => head.name :: head.params.map Parameter.name
  | .classField name _ _ _ => [name]
  | .identifier name => [name]
  | .arrow _ params _ => params.map Parameter.name
  | _ => []

/-- The texts of a node that may have names in them: those it declares, and raw text. -/
def Node.nameTexts : Node → List String
  | .verbatim text => [text]
  | n => n.declaredTexts

/-- The name is a word of some text in the unit that declares names or is raw. -/
def SourceUnit.Captures (u : SourceUnit) (name : String) : Prop :=
  ∃ n ∈ u.nodes, ∃ text ∈ n.nameTexts, name ∈ Text.identifierWords text

variable {n : Node} {u : SourceUnit} {name text : String}

theorem Node.mem_nameTexts_of_mem_declaredTexts (h : text ∈ n.declaredTexts) :
    text ∈ n.nameTexts := by
  cases n with
  | verbatim => cases h
  | _ => exact h

/-- Declared texts count as names of the unit. -/
theorem Node.mem_ownNames_of_mem_declaredTexts (h : text ∈ n.declaredTexts) : text ∈ n.ownNames := by
  cases n with
  | importDecl | varDecl | function | forOf | tryCatch | classDecl | method | classField
  | identifier | arrow => exact h
  | _ => cases h

/-- A word of a raw text, and a word of a declared text that is a plain name, count as names of the
unit. -/
theorem Node.mem_ownNames_of_mem_nameTexts (htext : text ∈ n.nameTexts)
    (hword : name ∈ Text.identifierWords text)
    (hplain : text ∈ n.declaredTexts → Text.isIdentifier text = true) : name ∈ n.ownNames := by
  have hdeclared : text ∈ n.declaredTexts → name ∈ n.ownNames := by
    intro hmem
    rw [Text.identifierWords_of_isIdentifier (hplain hmem), List.mem_singleton] at hword
    exact hword ▸ mem_ownNames_of_mem_declaredTexts hmem
  cases n with
  | verbatim raw =>
    obtain rfl := List.mem_singleton.1 htext
    exact hword
  | _ => exact hdeclared htext

/-! ### The name of the support module -/

/-- The name of the support module is not captured just when it is no word of a declared text that
is not a plain name. -/
theorem Program.not_captures_binding_iff (p : Program) (u : SourceUnit) (types : TypeTable) :
    let e := ((p.expand u).run types).1
    ¬u.Captures e.binding ↔
      ∀ n ∈ u.nodes, ∀ text ∈ n.declaredTexts, Text.isIdentifier text = false →
        e.binding ∉ Text.identifierWords text := by
  intro e
  have hfresh : e.binding ∉ u.names := Text.freshName_not_mem _ _
  constructor
  · intro hnot n hn text htext _ hword
    exact hnot ⟨n, hn, text, Node.mem_nameTexts_of_mem_declaredTexts htext, hword⟩
  · rintro hpatterns ⟨n, hn, text, htext, hword⟩
    -- a word of any other text is a name of the unit
    refine hfresh (SourceUnit.mem_names.2 ⟨n, hn, ?_⟩)
    refine Node.mem_ownNames_of_mem_nameTexts htext hword fun hmem => ?_
    rw [← Bool.not_eq_false]
    exact fun hno => hpatterns n hn text hmem hno hword

/-- A rest parameter that has the name chosen for the support module: inside the function, the
expanded call means the parameter. -/
theorem Program.captures_binding_of_rest_parameter :
    let u : SourceUnit := ⟨⟨"/a.ts"⟩, [Sample.markerImport,
      .function ⟨"load", false, [⟨"raw", none⟩, ⟨"...transformerDates_1", none⟩], none⟩
        [.returnStmt (some Sample.markerCall)]]⟩
    let e := ((Sample.program.expand u).run Sample.types).1
    e.tally.calls = 1 ∧ e.binding = "transformerDates_1" ∧ u.Captures e.binding := by
  intro u e
  have hbinding : e.binding = "transformerDates_1" := by decide +kernel
  have hwords : Text.identifierWords "...transformerDates_1" = ["transformerDates_1"] := by
    decide +kernel
  refine ⟨by decide +kernel, hbinding, ?_⟩
  rw [hbinding]
  refine ⟨_, List.mem_cons_of_mem _ List.mem_cons_self, "...transformerDates_1", ?_, ?_⟩
  · exact List.mem_cons_of_mem _ (List.mem_cons_of_mem _ List.mem_cons_self)
  · rw [hwords]
    exact List.mem_singleton_self _

end DateFields
