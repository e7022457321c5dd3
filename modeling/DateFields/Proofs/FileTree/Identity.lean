import DateFields.Expansion.Program
import DateFields.Proofs.FileTree.Route

/-!
# Which files are the same

Two paths that lead somewhere should be taken for one file just when their canonical paths are the
same.  Their normal forms count as well, and these can be the same for different files, when one of
the paths goes down to a link and then back by `..`.

* `FileTree.settle_eq_iff`: canonical paths are the same when the places are;
* `FileTree.Straight`: a path that leads somewhere and takes back no link;
* `FileTree.Straight.sameFile_iff`: such paths are told apart by their canonical paths;
* `FileTree.sameFile_spec`: what is taken for the same file, and for the marker.
-/

namespace DateFields

namespace FileTree

variable {t : FileTree} {p q r : Path} {a b : List String}

/-- The canonical paths of two paths are the same when they lead to the same place. -/
theorem settle_eq_iff (hp : t.locate p = .ok a) (hq : t.locate q = .ok b) :
    t.settle p = t.settle q ↔ a = b := by
  rw [(settle_of_locate hp).1, (settle_of_locate hq).1]
  constructor
  · intro h
    have hplace := (stands_of_locate hp).locate_pathOf
    rw [h, (stands_of_locate hq).locate_pathOf] at hplace
    exact (Except.ok.inj hplace).symm
  · exact congrArg pathOf

/-- Normal forms count as well as what the paths settle to. -/
theorem sameFile_iff :
    t.sameFile p q = true ↔ t.settle p = t.settle q ∨ p.normalize = q.normalize := by
  rw [sameFile, Bool.or_eq_true, decide_eq_true_eq, decide_eq_true_eq, Path.normalize_eq_iff,
    or_comm]

/-- The path leads somewhere, and takes back no link on the way. -/
structure Straight (t : FileTree) (p : Path) : Prop where
  /-- There is something at its end. -/
  found : t.exists? p = true
  /-- No `..` goes back over a link. -/
  forward : t.takesBackLink p = false

/-- Paths that take back no link and have the same normal form lead to the same place. -/
theorem Straight.settle_eq (hp : t.Straight p) (hq : t.Straight q)
    (h : p.normalize = q.normalize) : t.settle p = t.settle q := by
  obtain ⟨a, ha⟩ := exists?_iff.1 hp.found
  obtain ⟨b, hb⟩ := exists?_iff.1 hq.found
  have hplace := locate_normalize ha hp.forward
  rw [h, locate_normalize hb hq.forward] at hplace
  exact (settle_eq_iff ha hb).2 (Except.ok.inj hplace).symm

/-- Paths that take back no link are told apart by their canonical paths. -/
theorem Straight.sameFile_iff (hp : t.Straight p) (hq : t.Straight q) :
    t.sameFile p q = true ↔ t.settle p = t.settle q :=
  FileTree.sameFile_iff.trans (or_iff_left_of_imp (hp.settle_eq hq))

/-- **Files that are there are told apart by where they are, unless a link is taken back.** Two paths
that lead somewhere are taken for one file when they have the same canonical path, and else just when
they have the same normal form.  The second does not happen when neither takes back a link: such
paths are the same file just when their canonical paths are the same, and what is the same file as a
third one is the same file.  So an import or a call whose file and the file of the marker are reached
in this way is one of the marker only by where these files are. -/
theorem sameFile_spec (program : Program) :
    (∀ p q, program.files.exists? p = true → program.files.exists? q = true →
      (program.files.sameFile p q = true ↔
        (∃ place, program.files.locate p = .ok place ∧ program.files.locate q = .ok place) ∨
          p.normalize = q.normalize)) ∧
    (∀ p q, program.files.Straight p → program.files.Straight q →
      (program.files.sameFile p q = true ↔ program.files.settle p = program.files.settle q)) ∧
    (∀ p q r, program.files.Straight p → program.files.Straight q → program.files.Straight r →
      program.files.sameFile p q = true → program.files.sameFile q r = true →
        program.files.sameFile p r = true) ∧
    (∀ file clause specifier found, program.modules.resolve program.files specifier file = some found →
      program.files.Straight found → program.files.Straight program.config.marker.implementation →
      (program.isMarkerImport file (.importDecl clause specifier) = true ↔
        program.files.settle found = program.files.settle program.config.marker.implementation)) ∧
    ∀ types file id callee typeArgs args d, TypeTable.declarationOf? types file id callee = some d →
      program.files.Straight d.file → program.files.Straight program.config.marker.declaration →
      (program.isMarkerCall types file (.call id callee typeArgs args) = true ↔
        d.kind ≠ .documented ∧ d.name = some program.config.marker.function ∧
          program.files.settle d.file = program.files.settle program.config.marker.declaration) := by
  refine ⟨fun p q hp hq => ?_, fun p q hp hq => hp.sameFile_iff hq,
    fun p q r hp hq hr hpq hqr => ?_, fun file clause specifier found hresolve hfound hmarker => ?_,
    fun types file id callee typeArgs args d hd hfile hmarker => ?_⟩
  · obtain ⟨a, ha⟩ := exists?_iff.1 hp
    obtain ⟨b, hb⟩ := exists?_iff.1 hq
    rw [FileTree.sameFile_iff, settle_eq_iff ha hb, ha, hb]
    simp [eq_comm]
  · rw [hp.sameFile_iff hq] at hpq
    rw [hq.sameFile_iff hr] at hqr
    exact (hp.sameFile_iff hr).2 (hpq.trans hqr)
  · rw [Program.isMarkerImport, hresolve]
    exact hfound.sameFile_iff hmarker
  · rw [Program.isMarkerCall, hd, Option.any_some, Marker.isDeclaredBy, Bool.and_eq_true,
      Bool.and_eq_true, hfile.sameFile_iff hmarker]
    simp only [decide_eq_true_eq]
    tauto

end FileTree

namespace Sample

/-- A link to a directory inside a package, and files of one name in the package and beside the
link. -/
def linkedDirectory : FileTree :=
  ⟨[(["package"], .directory), (["package", "lib"], .directory),
    (["package", "lib", "dates.js"], .file ⟨#[]⟩), (["package", "lib", "dates.d.ts"], .file ⟨#[]⟩),
    (["package", "index.js"], .file ⟨#[]⟩), (["lib"], .link ⟨"/package/lib"⟩),
    (["index.js"], .file ⟨#[]⟩)]⟩

/-- A program that finds its marker through the link. -/
def linkedProgram : Program :=
  ⟨linkedDirectory, .registered (Modules.Registry.empty.addPackage "dates" ⟨"/lib/dates.js"⟩),
    .ofMarker ⟨⟨"/package/lib/dates.js"⟩, ⟨"/package/lib/dates.d.ts"⟩, Marker.standardFunction⟩⟩

/-- The link is followed, by imports and by calls. -/
theorem sameFile_linkedDirectory :
    let t := linkedDirectory
    let d : Declaration := ⟨.function, ⟨"/lib/dates.d.ts"⟩, some "toDates"⟩
    let types := TypeTable.new.bind ⟨⟨"/app.ts"⟩, some ⟨1⟩, none, d⟩
    t.Straight ⟨"/lib/dates.js"⟩ ∧ t.Straight ⟨"/package/lib/dates.js"⟩ ∧
      t.Straight ⟨"/package/./lib/dates.js"⟩ ∧
      t.sameFile ⟨"/lib/dates.js"⟩ ⟨"/package/./lib/dates.js"⟩ = true ∧
      linkedProgram.isMarkerImport ⟨"/app.ts"⟩ (.importDecl none "dates") = true ∧
      linkedProgram.isMarkerCall types ⟨"/app.ts"⟩ (.call ⟨1⟩ (.identifier "toDates") [] []) = true := by
  intro t d types
  obtain ⟨-, hsame, htrans, himport, hcall⟩ := FileTree.sameFile_spec linkedProgram
  have hlink : t.Straight ⟨"/lib/dates.js"⟩ := ⟨by decide +kernel, by decide +kernel⟩
  have hfile : t.Straight ⟨"/package/lib/dates.js"⟩ := ⟨by decide +kernel, by decide +kernel⟩
  have hdetour : t.Straight ⟨"/package/./lib/dates.js"⟩ := ⟨by decide +kernel, by decide +kernel⟩
  have hdeclaring : t.Straight d.file := ⟨by decide +kernel, by decide +kernel⟩
  have hdeclared : t.Straight ⟨"/package/lib/dates.d.ts"⟩ := ⟨by decide +kernel, by decide +kernel⟩
  have h₁ := (hsame _ _ hlink hfile).2 (by decide +kernel)
  have h₂ := (hsame _ _ hfile hdetour).2 (by decide +kernel)
  exact ⟨hlink, hfile, hdetour, htrans _ _ _ hlink hfile hdetour h₁ h₂,
    (himport _ _ _ _ (by decide +kernel) hlink hfile).2 (by decide +kernel),
    (hcall types _ _ _ _ _ d (by decide +kernel) hdeclaring hdeclared).2
      ⟨by decide, rfl, by decide +kernel⟩⟩

/-- A path that takes back the link and leads into the package is taken for the file beside the link,
and of course for the file in the package, and these are two files. -/
theorem sameFile_of_link_taken_back :
    let t := linkedDirectory
    let p : Path := ⟨"/lib/../index.js"⟩
    let beside : Path := ⟨"/index.js"⟩
    let inside : Path := ⟨"/package/index.js"⟩
    (t.exists? p = true ∧ t.exists? beside = true ∧ t.exists? inside = true) ∧
      t.sameFile beside p = true ∧ t.settle beside ≠ t.settle p ∧
      t.sameFile p inside = true ∧ t.sameFile beside inside = false := by
  decide +kernel

end Sample

end DateFields
