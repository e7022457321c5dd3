import DateFields.Modules.Registry
import DateFields.Proofs.Path.Extension
import Mathlib.Data.List.Induction

/-!
# What is registered is what is found

* `Registration.meant?`: what a specifier is meant to load, told by the registrations alone;
* `Registry.lookup_packages`, `Registry.lookup_files`, `Registry.fileAlong_ofRegistrations`: looking
  something up is looking for its last registration;
* `Registry.resolve_path`: a path specifier loads what is registered for it, but it also finds a
  directory that is registered as a module by the files `.js` and `..js` in it;
* `Registry.resolve_eq_meant?_iff`: otherwise specifiers load what they are meant to.
-/

namespace DateFields

theorem lookup_eq_find? {α β : Type} [BEq α] (k : α) (l : List (α × β)) :
    l.lookup k = (l.find? fun a => k == a.1).map Prod.snd := by
  induction l with
  | nil => rfl
  | cons a l ih =>
    obtain ⟨key, value⟩ := a
    rw [List.lookup_cons, List.find?_cons, ih]
    cases k == key <;> rfl

namespace Modules

/-! ### Registrations -/

/-- A registration. -/
inductive Registration where
  /-- A package, by its name. -/
  | package (name : String) (artifact : Path)
  /-- A module, by its path. -/
  | file (modulePath artifact : Path)

namespace Registration

/-- The artifact of the package with a name. -/
def package? (name : String) : Registration → Option Path
  | package n artifact => if name = n then some artifact else none
  | file _ _ => none

/-- The artifact of a module whose path has a wanted normal form. -/
def file? (wanted : Path → Bool) : Registration → Option Path
  | package _ _ => none
  | file p artifact => if wanted p.normalize then some artifact else none

/-- What is answered by the last registration that answers. -/
def last? (answer : Registration → Option Path) (l : List Registration) : Option Path :=
  l.reverse.findSome? answer

/-- What a specifier in a file is meant to load: the package of that name, or the module registered
for its path, or the module registered for the path that it names with `.js` behind it. -/
def meant? (l : List Registration) (specifier : String) (importer : Path) : Option Path :=
  if isPathSpecifier specifier then
    let target := (specifiedPath specifier importer).normalize
    last? (file? (· = target)) l <|> last? (file? fun p => p.text ++ ".js" = target.text) l
  else last? (package? specifier) l

end Registration

namespace Registry

open Registration

/-- One more registration. -/
def add (r : Registry) : Registration → Registry
  | .package name artifact => r.addPackage name artifact
  | .file modulePath artifact => r.addFile modulePath artifact

/-- The registry after some registrations. -/
def ofRegistrations (l : List Registration) : Registry := l.foldl add empty

variable {l : List Registration} {answer answer' : Registration → Option Path}
  {wanted wanted' : Path → Bool}

theorem last?_concat (answer : Registration → Option Path) (l : List Registration)
    (r : Registration) : last? answer (l ++ [r]) = (answer r <|> last? answer l) := by
  rw [last?, List.reverse_append, List.reverse_singleton, List.singleton_append,
    List.findSome?_cons]
  cases answer r <;> rfl

theorem ofRegistrations_concat (l : List Registration) (r : Registration) :
    ofRegistrations (l ++ [r]) = (ofRegistrations l).add r := by
  rw [ofRegistrations, List.foldl_append]
  rfl

/-- A package is looked up among the registrations. -/
theorem lookup_packages (l : List Registration) (name : String) :
    (ofRegistrations l).packages.lookup name = last? (package? name) l := by
  induction l using List.reverseRecOn with
  | nil => rfl
  | append_singleton l r ih =>
    rw [ofRegistrations_concat, last?_concat, ← ih]
    cases r with
    | package n artifact =>
      by_cases hname : name = n
      · simp [add, addPackage, package?, hname]
      · have hbeq : (name == n) = false := beq_false_of_ne hname
        simp [add, addPackage, package?, List.lookup_cons, hname, hbeq]
    | file => rfl

/-- A module is looked up among the registrations, by its place or by its normal form. -/
theorem find?_files (l : List Registration) (wanted : Place → Bool) :
    ((ofRegistrations l).files.find? fun f => wanted f.1).map Prod.snd =
      last? (file? fun p => wanted p.place) l := by
  induction l using List.reverseRecOn with
  | nil => rfl
  | append_singleton l r ih =>
    rw [ofRegistrations_concat, last?_concat, ← ih]
    cases r with
    | package => rfl
    | file p artifact =>
      cases hwanted : wanted p.place <;>
        simp [add, addFile, file?, p.place_normalize, hwanted]

theorem last?_congr (h : ∀ r ∈ l, answer r = answer' r) : last? answer l = last? answer' l := by
  induction l using List.reverseRecOn with
  | nil => rfl
  | append_singleton l r ih =>
    obtain ⟨hl, hr⟩ := List.forall_mem_append.1 h
    rw [last?_concat, last?_concat, ih hl, hr r (List.mem_singleton_self r)]

theorem file?_congr (h : ∀ p artifact, .file p artifact ∈ l →
    (wanted p.normalize = true ↔ wanted' p.normalize = true)) :
    last? (file? wanted) l = last? (file? wanted') l := by
  refine last?_congr fun r hr => ?_
  cases r with
  | package => rfl
  | file p artifact => rw [file?, file?, Bool.eq_iff_iff.2 (h p artifact hr)]

/-- Nothing is found just when no module is registered under a wanted path. -/
theorem file?_eq_none_iff : last? (file? wanted) l = none ↔
    ∀ p artifact, .file p artifact ∈ l → wanted p.normalize = false := by
  rw [last?, List.findSome?_eq_none_iff]
  constructor
  · intro h p artifact hmem
    simpa [file?] using h _ (List.mem_reverse.2 hmem)
  · intro h r hr
    cases r with
    | package => rfl
    | file p artifact => simp [file?, h p artifact (List.mem_reverse.1 hr)]

/-- Two ways to want a path, when all the wanted paths have the same normal form: the first is
followed as long as it leads to anything. -/
theorem file?_or (h : ∀ p artifact, .file p artifact ∈ l → ∀ p' artifact', .file p' artifact' ∈ l →
    wanted p.normalize = true → wanted' p'.normalize = true → p.normalize = p'.normalize) :
    last? (file? fun p => wanted p || wanted' p) l =
      (last? (file? wanted) l <|> last? (file? wanted') l) := by
  cases hlast : last? (file? wanted) l with
  | none =>
    refine file?_congr fun p artifact hmem => ?_
    rw [file?_eq_none_iff.1 hlast p artifact hmem, Bool.false_or]
  | some found =>
    obtain ⟨p, artifact, hmem, hwanted⟩ : ∃ p artifact, .file p artifact ∈ l ∧
        wanted p.normalize = true := by
      by_contra hnone
      have hlast' : last? (file? wanted) l = none := file?_eq_none_iff.2 fun p artifact hmem =>
        Bool.eq_false_iff.2 fun hwanted => hnone ⟨p, artifact, hmem, hwanted⟩
      rw [hlast'] at hlast
      cases hlast
    change _ = some found
    rw [← hlast]
    refine file?_congr fun p' artifact' hmem' => ?_
    rw [Bool.or_eq_true]
    refine ⟨fun hor => hor.elim id fun hwanted' => ?_, .inl⟩
    rwa [← h p artifact hmem p' artifact' hmem' hwanted hwanted']

/-! ### Finding modules -/

theorem stem?_eq_some {text stem : String} : stem? text = some stem ↔ text = stem ++ ".js" := by
  have htext : text = stem ++ ".js" ↔
      text.toList.reverse = 's' :: 'j' :: '.' :: stem.toList.reverse := by
    rw [← String.toList_inj, ← List.reverse_inj, String.toList_append, List.reverse_append]
    rfl
  rw [htext, stem?]
  split
  case h_1 rest hrest =>
    rw [hrest, Option.some_inj, ← String.toList_inj, String.toList_ofList]
    simp [List.reverse_eq_iff]
  case h_2 hother =>
    exact ⟨nofun, fun heq => (hother _ heq).elim⟩

/-- A module is found by components that are those of its normal form. -/
theorem fileAlong_ofRegistrations (l : List Registration) (p : Path) :
    (ofRegistrations l).fileAlong p = last? (file? (·.components = p.components)) l := by
  rw [fileAlong, find?_files l (·.components == p.components)]
  refine file?_congr fun p' _ _ => ?_
  rw [p'.place_normalize, p'.components_normalize, beq_iff_eq, decide_eq_true_iff]

theorem lookup_files (l : List Registration) (p : Path) :
    (ofRegistrations l).files.lookup p.place = last? (file? (· = p.normalize)) l := by
  rw [lookup_eq_find?, find?_files l (p.place == ·)]
  refine file?_congr fun p' _ _ => ?_
  rw [p'.place_normalize, beq_iff_eq, decide_eq_true_iff, Path.normalize_eq_iff, eq_comm]

/-- The path leads to the file `.js` or `..js` of a directory.  Without `.js` at its end, nothing
but the directory is left of it. -/
def isHiddenIn (target dir : Path) : Bool := dir.join ⟨".js"⟩ = target ∨ dir.join ⟨"..js"⟩ = target

theorem isHiddenIn_iff {target dir : Path} : isHiddenIn target dir = true ↔
    dir.join ⟨".js"⟩ = target ∨ dir.join ⟨"..js"⟩ = target :=
  decide_eq_true_iff

theorem exists_stem_of_isHiddenIn {target dir : Path} (h : isHiddenIn target dir = true) :
    ∃ stem, target.text = stem ++ ".js" := by
  have hjoin (first : String) (hfirst : Path.isAbsolute ⟨first⟩ = false)
      (hname : Path.isAbsolute ⟨first ++ ".js"⟩ = false) :
      (dir.join ⟨first ++ ".js"⟩).text = (dir.join ⟨first⟩).text ++ ".js" :=
    dir.text_join_append hfirst hname
  rcases isHiddenIn_iff.1 h with rfl | rfl
  · exact ⟨_, hjoin "" rfl rfl⟩
  · exact ⟨_, hjoin "." rfl rfl⟩

/-- A path that ends in `.js` is also looked up without it.  What is left is the normal form of a
module, or another spelling of a directory that is registered as one. -/
theorem fileAlong_stem (l : List Registration) (q : Path) {stem : String}
    (h : q.normalize.text = stem ++ ".js") :
    (ofRegistrations l).fileAlong ⟨stem⟩ =
      (last? (file? fun p => p.text ++ ".js" = q.normalize.text) l <|>
        last? (file? (isHiddenIn q.normalize)) l) := by
  have htext (p : Path) : p.text ++ ".js" = q.normalize.text ↔ p.text = stem := by
    rw [h, String.append_left_inj]
  rw [fileAlong_ofRegistrations, ← file?_or]
  · refine file?_congr fun p _ _ => ?_
    rw [decide_eq_true_iff, Path.components_normalize_eq_iff h, Bool.or_eq_true, decide_eq_true_iff,
      htext, isHiddenIn_iff]
  · intro p _ _ p' _ _ hp hp'
    have hcomponents : p.normalize.components = p'.normalize.components := by
      rw [(Path.components_normalize_eq_iff h).2 (.inl ((htext _).1 (decide_eq_true_iff.1 hp))),
        (Path.components_normalize_eq_iff h).2 (.inr (isHiddenIn_iff.1 hp'))]
    rw [p.components_normalize, p'.components_normalize] at hcomponents
    exact congrArg Path.ofComponents hcomponents

/-- A path specifier is looked up as it is, then without `.js` behind it; a module registered for
a directory is also found by the name of the file `.js` or `..js` in it. -/
theorem resolve_path {specifier : String} (h : isPathSpecifier specifier = true)
    (l : List Registration) (importer : Path) :
    let target := (specifiedPath specifier importer).normalize
    (ofRegistrations l).resolve specifier importer = (last? (file? (· = target)) l <|>
      last? (file? fun p => p.text ++ ".js" = target.text) l <|>
      last? (file? (isHiddenIn target)) l) := by
  intro target
  have hresolve : (ofRegistrations l).resolve specifier importer =
      ((ofRegistrations l).files.lookup (specifiedPath specifier importer).place <|>
        (stem? target.text).bind fun stem => (ofRegistrations l).fileAlong ⟨stem⟩) := if_pos h
  rw [hresolve, lookup_files]
  refine congrArg (last? (file? (· = target)) l <|> ·) ?_
  cases hstem : stem? target.text with
  | some stem => exact fileAlong_stem l _ (stem?_eq_some.1 hstem)
  | none =>
    have hnone (stem : String) : target.text ≠ stem ++ ".js" := by
      intro htext
      rw [stem?_eq_some.2 htext] at hstem
      cases hstem
    have hscript : last? (file? fun p => p.text ++ ".js" = target.text) l = none :=
      file?_eq_none_iff.2 fun p _ _ => decide_eq_false fun htext => hnone _ htext.symm
    have hhidden : last? (file? (isHiddenIn target)) l = none := by
      refine file?_eq_none_iff.2 fun p _ _ => Bool.eq_false_iff.2 fun hidden => ?_
      obtain ⟨stem, htext⟩ := exists_stem_of_isHiddenIn hidden
      exact hnone stem htext
    rw [hscript, hhidden]
    rfl

theorem orElse_eq_iff {a b c : Option Path} :
    (a <|> b <|> c) = (a <|> b) ↔ ((a <|> b) = none → c = none) := by
  cases a <;> cases b <;> simp

/-- **Specifiers load what is registered for them,** just when no path specifier for which nothing
is registered leads to the file `.js` or `..js` of a directory that is registered as a module. -/
theorem resolve_eq_meant?_iff (l : List Registration) (specifier : String) (importer : Path) :
    (ofRegistrations l).resolve specifier importer = meant? l specifier importer ↔
      (isPathSpecifier specifier = true → meant? l specifier importer = none →
        ∀ p artifact, .file p artifact ∈ l →
          isHiddenIn (specifiedPath specifier importer).normalize p.normalize = false) := by
  cases hpath : isPathSpecifier specifier with
  | false =>
    have hresolve : (ofRegistrations l).resolve specifier importer =
        meant? l specifier importer := by
      simp [resolve, meant?, hpath, lookup_packages]
    exact iff_of_true hresolve nofun
  | true =>
    have hmeant : meant? l specifier importer = _ := if_pos hpath
    rw [← file?_eq_none_iff, resolve_path hpath, hmeant, orElse_eq_iff]
    exact ⟨fun h _ => h, fun h => h rfl⟩

/-- A module registered for a directory is loaded for the file `.js` in it, for which nothing is
registered. -/
theorem resolve_file_in_module :
    let l : List Registration := [.file ⟨"/src/lib"⟩ ⟨"/src/lib.js"⟩]
    (ofRegistrations l).resolve "./lib/.js" ⟨"/src/app.ts"⟩ = some ⟨"/src/lib.js"⟩ ∧
      meant? l "./lib/.js" ⟨"/src/app.ts"⟩ = none := by
  decide +kernel

end Registry

end Modules

end DateFields
