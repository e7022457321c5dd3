import DateFields.Proofs.Expansion.Sequence
import DateFields.Proofs.Modules.Registered
import DateFields.Proofs.Path.Place
import DateFields.Proofs.TypeTable.Members
import Mathlib.Data.List.Forall2

/-!
# Other spellings of the same paths

Files are told apart by their places.  As long as the files are not at hand, so that no symbolic link
is followed, a program whose paths are spelled in another way expands its units alike.

* `FileTree.Respelled` — two spellings of the path of a file that is not there;
* `Config.Respelled`, `Modules.Registry.Respelled`, `TypeTable.Operation.Respelled`,
  `SourceUnit.Respelled` — what a program is made of, with its paths spelled in another way;
* `Registry.Respelled.resolve_rel` — a specifier leads to the same module;
* `Operation.Respelled.foldl` — the tables declare the same and bind the same calls;
* `Program.expand_respelled` — the expansion of a unit.
-/

namespace DateFields

/-! ### Lists with keys -/

section Keyed

variable {α β : Type} {R : β → β → Prop} {l l' : List (α × β)}

/-- The keys are the same, and the values are related. -/
def Keyed (R : β → β → Prop) : List (α × β) → List (α × β) → Prop :=
  List.Forall₂ fun a b => a.1 = b.1 ∧ R a.2 b.2

/-- Under a key that is asked for, values are related. -/
theorem Keyed.find?_rel (h : Keyed R l l') (q : α → Bool) : Option.Rel R
    ((l.find? fun a => q a.1).map Prod.snd) ((l'.find? fun a => q a.1).map Prod.snd) := by
  induction h with
  | nil => exact .none
  | @cons a b as bs hab _ ih =>
    obtain ⟨hkey, hvalue⟩ := hab
    rw [List.find?_cons, List.find?_cons, ← hkey]
    cases q a.1 with
    | true => exact .some hvalue
    | false => exact ih

theorem Keyed.lookup_rel [BEq α] (h : Keyed R l l') (k : α) :
    Option.Rel R (l.lookup k) (l'.lookup k) := by
  rw [lookup_eq_find?, lookup_eq_find?]
  exact h.find?_rel (k == ·)

theorem any_eq_of_rel {x y : Option β} {f g : β → Bool} (h : Option.Rel R x y)
    (hfg : ∀ {a b}, R a b → f a = g b) : x.any f = y.any g := by
  cases h with
  | none => rfl
  | some hab => exact hfg hab

end Keyed

/-! ### Paths -/

/-- The path leads to nothing. -/
def FileTree.LeadsNowhere (files : FileTree) (p : Path) : Prop :=
  ∃ fault, files.locate p = .error fault

/-- Two spellings with one normal form of the path of a file that is not there. -/
structure FileTree.Respelled (files : FileTree) (p q : Path) : Prop where
  /-- The normal forms are the same. -/
  normal : p.normalize = q.normalize
  /-- The first spelling leads to nothing. -/
  left : files.LeadsNowhere p
  /-- Neither does the second one. -/
  right : files.LeadsNowhere q

variable {files : FileTree}

theorem FileTree.LeadsNowhere.settle_eq {p : Path} (h : files.LeadsNowhere p) :
    files.settle p = p.normalize := by
  obtain ⟨fault, hfault⟩ := h
  rw [settle, hfault]

/-- Files that are not there are compared by their normal forms. -/
theorem FileTree.LeadsNowhere.sameFile_eq {p q : Path} (hp : files.LeadsNowhere p)
    (hq : files.LeadsNowhere q) : files.sameFile p q = decide (p.normalize = q.normalize) := by
  rw [sameFile, hp.settle_eq, hq.settle_eq]
  simp [Path.normalize_eq_iff]

theorem FileTree.Respelled.sameFile_eq {p p' q q' : Path} (hp : files.Respelled p p')
    (hq : files.Respelled q q') : files.sameFile p q = files.sameFile p' q' := by
  rw [hp.left.sameFile_eq hq.left, hp.right.sameFile_eq hq.right, hp.normal, hq.normal]

/-! ### Programs -/

/-- The same declaration, its file spelled in another way. -/
structure Declaration.Respelled (files : FileTree) (d d' : Declaration) : Prop where
  /-- The kind. -/
  kind : d.kind = d'.kind
  /-- The file. -/
  file : files.Respelled d.file d'.file
  /-- The name. -/
  name : d.name = d'.name

/-- The same calls bound, in a file spelled in another way. -/
structure CallBinding.Respelled (files : FileTree) (b b' : CallBinding) : Prop where
  /-- The file. -/
  file : b.file.normalize = b'.file.normalize
  /-- The number. -/
  call : b.call = b'.call
  /-- The callee. -/
  callee : b.callee = b'.callee
  /-- The declaration. -/
  declaration : b.declaration.Respelled files b'.declaration

/-- The same configuration, its marker paths spelled in another way. -/
structure Config.Respelled (files : FileTree) (c c' : Config) : Prop where
  /-- The implementing file. -/
  implementation : files.Respelled c.marker.implementation c'.marker.implementation
  /-- The declaring file. -/
  declaration : files.Respelled c.marker.declaration c'.marker.declaration
  /-- The name of the marker. -/
  function : c.marker.function = c'.marker.function
  /-- The support module. -/
  support : c.support = c'.support
  /-- The name of the type of dates. -/
  timestamp : c.timestamp = c'.timestamp

/-- The same modules registered one after the other, their paths and artifacts spelled in another
way. -/
inductive Modules.Registry.Respelled (files : FileTree) : Registry → Registry → Prop
  /-- No module is registered. -/
  | empty : Respelled files .empty .empty
  /-- A package. -/
  | addPackage {r r' : Registry} (h : Respelled files r r') (name : String)
    {artifact artifact' : Path} (hartifact : files.Respelled artifact artifact') :
    Respelled files (r.addPackage name artifact) (r'.addPackage name artifact')
  /-- A module. -/
  | addFile {r r' : Registry} (h : Respelled files r r') {modulePath modulePath' : Path}
    (hmodule : modulePath.normalize = modulePath'.normalize) {artifact artifact' : Path}
    (hartifact : files.Respelled artifact artifact') :
    Respelled files (r.addFile modulePath artifact) (r'.addFile modulePath' artifact')

/-- The same done to a table, calls bound with their paths spelled in another way. -/
inductive TypeTable.Operation.Respelled (files : FileTree) : Operation → Operation → Prop
  /-- A call is bound. -/
  | bind {b b' : CallBinding} (h : b.Respelled files b') : Respelled files (.bind b) (.bind b')
  /-- A class or an interface is declared. -/
  | declare (d : TypeDeclaration) : Respelled files (.declare d) (.declare d)
  /-- The type of an expression is asked for. -/
  | resolve (e : TypeExpr) : Respelled files (.resolve e) (.resolve e)
  /-- A type without `null` and `undefined` is asked for. -/
  | nonNullable (id : TypeId) : Respelled files (.nonNullable id) (.nonNullable id)

/-- The same statements in a file spelled in another way. -/
structure SourceUnit.Respelled (u u' : SourceUnit) : Prop where
  /-- The normal forms of the paths are the same. -/
  normal : u.path.normalize = u'.path.normalize
  /-- The first path ends in a name. -/
  left : u.path.fileName?.isSome
  /-- So does the second one. -/
  right : u'.path.fileName?.isSome
  /-- The statements. -/
  statements : u.statements = u'.statements

/-! ### Modules -/

namespace Modules.Registry

variable {r r' : Registry}

theorem Respelled.packages_rel (h : r.Respelled files r') :
    Keyed files.Respelled r.packages r'.packages := by
  induction h with
  | empty => exact .nil
  | addPackage _ _ hartifact ih => exact .cons ⟨rfl, hartifact⟩ ih
  | addFile _ _ _ ih => exact ih

theorem Respelled.files_rel (h : r.Respelled files r') :
    Keyed files.Respelled r.files r'.files := by
  induction h with
  | empty => exact .nil
  | addPackage _ _ _ ih => exact ih
  | addFile _ hmodule hartifact ih => exact .cons ⟨Path.normalize_eq_iff.1 hmodule, hartifact⟩ ih

theorem orElse_rel {R : Path → Path → Prop} {x x' y y' : Option Path} (hx : Option.Rel R x x')
    (hy : Option.Rel R y y') : Option.Rel R (x <|> y) (x' <|> y') := by
  cases hx with
  | none => exact hy
  | some h => exact .some h

/-- A specifier leads to the same artifact. -/
theorem Respelled.resolve_rel (h : r.Respelled files r') {importer importer' : Path}
    (hdirectory : importer.directory.place = importer'.directory.place) (specifier : String) :
    Option.Rel files.Respelled (r.resolve specifier importer) (r'.resolve specifier importer') := by
  have htarget : (specifiedPath specifier importer).place =
      (specifiedPath specifier importer').place := Path.place_join_congr hdirectory _
  rw [resolve, resolve]
  split
  · rw [htarget]
    refine orElse_rel (h.files_rel.lookup_rel _) ?_
    cases stem? (specifiedPath specifier importer').place.path.text with
    | none => exact .none
    | some stem => exact h.files_rel.find?_rel fun place => place.components == Path.components ⟨stem⟩
  · exact h.packages_rel.lookup_rel specifier

end Modules.Registry

/-! ### Tables -/

namespace TypeTable

variable {t t' : TypeTable}

/-- The tables declare the same and bind the same calls, the declarations spelled in another way. -/
structure Respelled (files : FileTree) (t t' : TypeTable) : Prop where
  /-- The same is declared. -/
  declared : t.declared? = t'.declared?
  /-- The same calls are bound. -/
  bindings : Keyed (Declaration.Respelled files) t.bindings t'.bindings

theorem Respelled.extends {v v' : TypeTable} (h : t.Respelled files t') (hv : t.Extends v)
    (hv' : t'.Extends v') : v.Respelled files v' :=
  ⟨by rw [hv.declared?_eq, hv'.declared?_eq, h.declared], by
    rw [hv.bindings, hv'.bindings]
    exact h.bindings⟩

/-- An operation keeps tables alike. -/
theorem Respelled.apply (h : t.Respelled files t') (ht : t.WellFormed) (ht' : t'.WellFormed)
    {op op' : Operation} (hop : op.Respelled files op') :
    (op.apply t).Respelled files (op'.apply t') := by
  cases hop with
  | @bind b b' hb =>
    have hkey : b.key? = b'.key? := by rw [CallBinding.key?, CallBinding.key?, hb.call, hb.callee]
    constructor
    case declared =>
      funext name
      rw [Operation.apply, Operation.apply, declared?, declared?, entries_bind, entries_bind,
        ← declared?, ← declared?, h.declared]
    case bindings =>
      rw [Operation.apply, Operation.apply, TypeTable.bind, TypeTable.bind, hkey]
      cases b'.key? with
      | none => exact h.bindings
      | some key =>
        have hplace : b.file.place = b'.file.place := Path.normalize_eq_iff.1 hb.file
        exact .cons ⟨by rw [hplace], hb.declaration⟩ h.bindings
  | declare d =>
    constructor
    case declared =>
      funext name
      rw [Operation.apply, Operation.apply, ht.declared?_declare, ht'.declared?_declare, h.declared]
    case bindings =>
      rw [Operation.apply, Operation.apply, bindings_declare, bindings_declare]
      exact h.bindings
  | resolve e => exact h.extends (grows_resolve e t) (grows_resolve e t')
  | nonNullable id => exact h.extends (grows_nonNullable id t) (grows_nonNullable id t')

theorem respelled_foldl {ops ops' : List Operation}
    (hops : List.Forall₂ (Operation.Respelled files) ops ops') (ht : t.WellFormed)
    (ht' : t'.WellFormed) (h : t.Respelled files t') :
    (ops.foldl Operation.apply t).Respelled files (ops'.foldl Operation.apply t') := by
  induction hops generalizing t t' with
  | nil => exact h
  | cons hop _ ih => exact ih (ht.apply _) (ht'.apply _) (h.apply ht ht' hop)

/-- The same operations lead to tables that are alike. -/
theorem respelled_ofOperations {ops ops' : List Operation}
    (hops : List.Forall₂ (Operation.Respelled files) ops ops') :
    (ofOperations ops).Respelled files (ofOperations ops') :=
  respelled_foldl hops wellFormed_new wellFormed_new ⟨rfl, .nil⟩

/-- Calls in a file resolve to the same declaration. -/
theorem Respelled.declarationOf?_rel (h : t.Respelled files t') {file file' : Path}
    (hplace : file.place = file'.place) (id : CallId) (callee : Node) :
    Option.Rel (Declaration.Respelled files) (t.declarationOf? file id callee)
      (t'.declarationOf? file' id callee) := by
  rw [declarationOf?, declarationOf?, hplace]
  cases callKey? id callee with
  | none => exact .none
  | some key => exact h.bindings.lookup_rel (file'.place, key)

end TypeTable

/-! ### Expansion -/

section Expansion

variable {c c' : Config} {r r' : Modules.Registry} {t t' : TypeTable} {u u' : SourceUnit}

theorem SourceUnit.Respelled.place_directory (hu : u.Respelled u') :
    u.path.directory.place = u'.path.directory.place := by
  obtain ⟨name, hname⟩ := Option.isSome_iff_exists.1 hu.left
  obtain ⟨name', hname'⟩ := Option.isSome_iff_exists.1 hu.right
  rw [Path.place_directory hname, Path.place_directory hname', Path.normalize_eq_iff.1 hu.normal]

/-- The marker is declared by the same declarations. -/
theorem Config.Respelled.isDeclaredBy_eq (hc : c.Respelled files c') {d d' : Declaration}
    (hd : d.Respelled files d') :
    c.marker.isDeclaredBy files d = c'.marker.isDeclaredBy files d' := by
  rw [Marker.isDeclaredBy, Marker.isDeclaredBy, hd.kind, hd.file.sameFile_eq hc.declaration, hd.name,
    hc.function]

/-- The same nodes import the marker. -/
theorem isMarkerImport_respelled (hc : c.Respelled files c') (hr : r.Respelled files r')
    (hu : u.Respelled u') (n : Node) :
    Program.isMarkerImport ⟨files, .registered r, c⟩ u.path n =
      Program.isMarkerImport ⟨files, .registered r', c'⟩ u'.path n := by
  cases n with
  | importDecl clause specifier =>
    exact any_eq_of_rel (hr.resolve_rel hu.place_directory specifier) fun hartifact =>
      hartifact.sameFile_eq hc.implementation
  | _ => rfl

/-- The same nodes call the marker. -/
theorem isMarkerCall_respelled (r r' : Modules.Registry) (hc : c.Respelled files c')
    (ht : t.Respelled files t') (hu : u.Respelled u') (n : Node) :
    Program.isMarkerCall ⟨files, .registered r, c⟩ t u.path n =
      Program.isMarkerCall ⟨files, .registered r', c'⟩ t' u'.path n := by
  cases n with
  | call id callee _ _ =>
    have hplace : u.path.place = u'.path.place := Path.normalize_eq_iff.1 hu.normal
    exact any_eq_of_rel (ht.declarationOf?_rel hplace id callee) fun hd => hc.isDeclaredBy_eq hd
  | _ => rfl

/-- Units are expanded in scopes that are alike. -/
theorem scope_respelled (hc : c.Respelled files c') (hr : r.Respelled files r')
    (ht : t.Respelled files t') (hnames : t.SameNames t') (hu : u.Respelled u') :
    (Program.scope ⟨files, .registered r, c⟩ u).Alike t
      (Program.scope ⟨files, .registered r', c'⟩ u') t' where
  imports := isMarkerImport_respelled hc hr hu
  calls n := by
    have hcalls := isMarkerCall_respelled r r' hc ht hu n
    cases n with
    | call id callee typeArgs args =>
      cases typeArgs <;> cases args <;> try rfl
      exact congrArg (if · = true then _ else _) hcalls
    | _ => rfl
  names := hnames
  timestamp := hc.timestamp
  support := hc.support
  binding := by
    have hunit : u.names = u'.names := by
      rw [SourceUnit.names, SourceUnit.names, SourceUnit.nodes, SourceUnit.nodes, hu.statements]
    exact congrArg₂ Text.freshName (congrArg Support.stem hc.support) hunit
  markerNames := by
    show Program.markerNames _ u = Program.markerNames _ u'
    rw [Program.markerNames, Program.markerNames, hu.statements,
      funext (isMarkerImport_respelled hc hr hu)]

/-- As long as the files that modules, declarations and the marker stand in are not at hand, a unit
whose path ends in a name is expanded in the same way, however the paths are spelled: those of units,
of the files of bound calls and of declarations, of registered modules and their artifacts, and of
the marker. -/
theorem Program.expand_respelled {ops ops' : List TypeTable.Operation}
    (hops : List.Forall₂ (TypeTable.Operation.Respelled files) ops ops')
    (hr : r.Respelled files r') (hc : c.Respelled files c') (hu : u.Respelled u') :
    ((expand ⟨files, .registered r', c'⟩ u').run (TypeTable.ofOperations ops')).1 =
      ((expand ⟨files, .registered r, c⟩ u).run (TypeTable.ofOperations ops)).1.inFile u'.path := by
  have ht := TypeTable.wellFormed_ofOperations ops
  have ht' := TypeTable.wellFormed_ofOperations ops'
  have htables := TypeTable.respelled_ofOperations hops
  have hnames : (TypeTable.ofOperations ops).SameNames (TypeTable.ofOperations ops') :=
    TypeTable.sameNames_of_declared? ht ht' (TypeTable.knownPrimitives_ofOperations ops)
      (TypeTable.knownPrimitives_ofOperations ops') htables.declared
  exact Program.expand_alike ht ht' (scope_respelled hc hr htables hnames hu) hu.statements

end Expansion

namespace Sample

/-- `Event` is declared, and the calls with number 1 in a file are bound to the marker in another. -/
def boundIn (file declaring : String) : List TypeTable.Operation :=
  [.declare ⟨"Event", .ofInterface, [], [⟨"at", some (.reference "Date" [])⟩]⟩,
    .bind ⟨⟨file⟩, some ⟨1⟩, none, ⟨.function, ⟨declaring⟩, some "toDates"⟩⟩]

/-- A configuration by the paths of the marker. -/
def markedBy (implementation declaring : String) : Config :=
  .ofMarker ⟨⟨implementation⟩, ⟨declaring⟩, Marker.standardFunction⟩

/-- `import { toDates } from "./dates"; toDates<Event>(raw);` -/
def importing (file : String) : SourceUnit :=
  ⟨⟨file⟩, [.importDecl (some ⟨none, none, [⟨"toDates", none⟩]⟩) "./dates", .expression markerCall]⟩

/-- Detours in all paths of a program, and a unit that imports the marker by a path. -/
theorem expand_respelled_by_detours :
    let r := Modules.Registry.empty.addFile ⟨"/src/dates"⟩ ⟨"/m/index.js"⟩
    let r' := Modules.Registry.empty.addFile ⟨"/lib/../src/dates/"⟩ ⟨"/../m/index.js"⟩
    let c := markedBy "/m/index.js" "/m/index.d.ts"
    let c' := markedBy "/m/lib/../index.js" "//m/index.d.ts"
    let ops := boundIn "/src/a.ts" "/m/index.d.ts"
    let ops' := boundIn "/src/./a.ts" "/m/./index.d.ts"
    let u := importing "/src/a.ts"
    let u' := importing "/lib/../src/a.ts"
    let expansion := fun r c u ops =>
      ((Program.expand ⟨.empty, .registered r, c⟩ u).run (TypeTable.ofOperations ops)).1
    List.Forall₂ (TypeTable.Operation.Respelled .empty) ops ops' ∧ r.Respelled .empty r' ∧
    c.Respelled .empty c' ∧ u.Respelled u' ∧ (expansion r c u ops).tally = ⟨1, 1, 0⟩ ∧
    expansion r' c' u' ops' = (expansion r c u ops).inFile ⟨"/lib/../src/a.ts"⟩ := by
  intro r r' c c' ops ops' u u' expansion
  have hartifact : FileTree.empty.Respelled ⟨"/m/index.js"⟩ ⟨"/../m/index.js"⟩ :=
    ⟨by decide +kernel, ⟨.missing, by decide +kernel⟩, ⟨.missing, by decide +kernel⟩⟩
  have hr : r.Respelled .empty r' := .addFile .empty (by decide +kernel) hartifact
  have hc : c.Respelled .empty c' := by
    refine ⟨⟨?_, ⟨.missing, ?_⟩, ⟨.missing, ?_⟩⟩, ⟨?_, ⟨.missing, ?_⟩, ⟨.missing, ?_⟩⟩,
      rfl, rfl, rfl⟩ <;> decide +kernel
  have hdeclaring : FileTree.empty.Respelled ⟨"/m/index.d.ts"⟩ ⟨"/m/./index.d.ts"⟩ :=
    ⟨by decide +kernel, ⟨.missing, by decide +kernel⟩, ⟨.missing, by decide +kernel⟩⟩
  have hops : List.Forall₂ (TypeTable.Operation.Respelled .empty) ops ops' :=
    .cons (.declare _) (.cons (.bind ⟨by decide +kernel, rfl, rfl, rfl, hdeclaring, rfl⟩) .nil)
  have hu : u.Respelled u' := ⟨by decide +kernel, by decide +kernel, by decide +kernel, rfl⟩
  have htally : (expansion r c u ops).tally = ⟨1, 1, 0⟩ := by decide +kernel
  have hexpand := Program.expand_respelled hops hr hc hu
  exact ⟨hops, hr, hc, hu, htally, hexpand⟩

end Sample

end DateFields
