import DateFields.Config.Load
import DateFields.Proofs.FileTree.Route
import Mathlib.Data.List.Infix

/-!
# Settled marker paths

The paths of a marker are settled when they are stored: a path that leads somewhere is stored as its
canonical path, and any other one as its normal form.  What is stored settles to itself, unless the
normal form of a path that leads nowhere leads somewhere after all, through a link.

* `FileTree.meetsLink`: a link stands on the way down some names;
* `FileTree.settle_settle_iff`: when settling a second time changes nothing;
* `FileTree.SettledTo`: what is known of a stored path;
* `Config.ofText_settled`: the stored paths of a configuration, and of a marker.
-/

namespace DateFields

namespace FileTree

variable {t : FileTree} {p stored dir : Path} {place names front back : List String} {n : Nat}

/-! ### Ways without links -/

/-- A link stands on the way down the names from the root. -/
def meetsLink (t : FileTree) (names : List String) : Bool :=
  names.inits.any fun front => (t.entryAt? front).any Entry.isLink

theorem meetsLink_eq_false_iff : t.meetsLink names = false ↔
    ∀ front target, front <+: names → t.entryAt? front ≠ some (.link target) := by
  rw [meetsLink, List.any_eq_false]
  refine forall_congr' fun front => ?_
  rw [List.mem_inits]
  constructor
  · intro h target hfront hentry
    exact h hfront (by simp [hentry, Entry.isLink])
  · intro h hfront hlink
    obtain ⟨e, he, hlink⟩ := (Option.any_eq_true _ _).1 hlink
    cases e with
    | link target => exact h target hfront he
    | _ => cases hlink

/-- No link stands on the way to a place where a walk can end. -/
theorem Stands.meetsLink_eq_false (h : t.Stands names) : t.meetsLink names = false := by
  rw [meetsLink_eq_false_iff]
  rintro front target ⟨back, rfl⟩ hentry
  cases back with
  | nil =>
    obtain ⟨e, he, hlink⟩ := h.entry
    rw [List.append_nil, hentry] at he
    exact hlink target (Option.some.inj he).symm
  | cons name back =>
    have hdirectory := isDirectoryAt_iff.1 (h.above front name back rfl)
    rw [hentry] at hdirectory
    cases hdirectory

/-- Without a link on it, the way down some names ends where they say. -/
theorem Route.eq_append (h : t.Route front (back.map .into) n place)
    (hlink : t.meetsLink (front ++ back) = false) : place = front ++ back := by
  induction back generalizing front n with
  | nil =>
    cases h
    exact (List.append_nil _).symm
  | cons name back ih =>
    have happend : front ++ name :: back = front ++ [name] ++ back := by simp
    rw [happend] at hlink ⊢
    cases h with
    | into _ _ _ rest => exact ih rest hlink
    | link _ hentry _ =>
      exact absurd hentry (meetsLink_eq_false_iff.1 hlink _ _ (List.prefix_append _ back))

/-- The path of some names leads to the place they tell just when there is no link on the way. -/
theorem eq_names_iff (h : ∀ name ∈ names, (Path.Component.name name).Ordinary)
    (hlocate : t.locate (pathOf names) = .ok place) :
    place = names ↔ t.meetsLink names = false := by
  constructor
  · rintro rfl
    exact (stands_of_locate hlocate).meetsLink_eq_false
  · intro hlink
    obtain ⟨n, -, hroute⟩ := (locate_pathOf_eq_ok_iff h).1 hlocate
    exact hroute.eq_append hlink

/-! ### Settling -/

theorem settle_of_not_exists (h : t.exists? p = false) : t.settle p = p.normalize := by
  rw [settle]
  cases hlocate : t.locate p with
  | error => rfl
  | ok place => rw [exists?_iff.2 ⟨place, hlocate⟩] at h; cases h

theorem place_pathOf (h : ∀ name ∈ names, (Path.Component.name name).Ordinary) :
    (pathOf names).place = ⟨.root, names⟩ := by
  have hproper : (Place.mk .root names).Proper := h
  rw [pathOf_eq]
  exact hproper.place_path

theorem pathOf_inj (h : ∀ name ∈ names, (Path.Component.name name).Ordinary)
    (hplace : ∀ name ∈ place, (Path.Component.name name).Ordinary) :
    pathOf place = pathOf names ↔ place = names := by
  refine ⟨fun heq => ?_, congrArg pathOf⟩
  have hpath := congrArg Path.place heq
  rw [place_pathOf h, place_pathOf hplace] at hpath
  exact congrArg Place.names hpath

/-- What a path settles to is spelled as its own normal form, and absolute when the path is. -/
theorem settle_normal (t : FileTree) (p : Path) :
    (t.settle p).normalize = t.settle p ∧ (t.settle p).isAbsolute = p.isAbsolute := by
  cases hexists : t.exists? p with
  | false =>
    rw [settle_of_not_exists hexists]
    exact ⟨Path.normalize_eq_iff.2 p.place_normalize, p.isAbsolute_normalize⟩
  | true =>
    obtain ⟨place, hlocate⟩ := exists?_iff.1 hexists
    have hstands := stands_of_locate hlocate
    have habsolute : (pathOf place).isAbsolute = true := (locate_eq_ok_iff.1 hstands.locate_pathOf).1
    rw [(settle_of_locate hlocate).1, normalize_eq_pathOf habsolute, place_pathOf hstands.names,
      habsolute, (locate_eq_ok_iff.1 hlocate).1]
    exact ⟨rfl, rfl⟩

/-- Settling a second time changes nothing, unless a path leads nowhere and its normal form leads
through a link. -/
theorem settle_settle_iff (habsolute : p.isAbsolute = true) :
    t.settle (t.settle p) = t.settle p ↔
      (t.exists? p = false → t.exists? (t.settle p) = true →
        t.meetsLink (t.settle p).place.names = false) := by
  cases hexists : t.exists? p with
  | true =>
    obtain ⟨place, hlocate⟩ := exists?_iff.1 hexists
    obtain ⟨hsettle, hfixed⟩ := settle_of_locate hlocate
    rw [hsettle, hfixed]
    exact iff_of_true rfl nofun
  | false =>
    rw [settle_of_not_exists hexists, p.place_normalize]
    cases hnormal : t.exists? p.normalize with
    | false =>
      rw [settle_of_not_exists hnormal]
      exact iff_of_true (Path.normalize_eq_iff.2 p.place_normalize) nofun
    | true =>
      obtain ⟨place, hlocate⟩ := exists?_iff.1 hnormal
      have hnames := Place.proper_place p
      rw [(settle_of_locate hlocate).1, normalize_eq_pathOf habsolute,
        pathOf_inj hnames (stands_of_locate hlocate).names]
      rw [normalize_eq_pathOf habsolute] at hlocate
      rw [eq_names_iff hnames hlocate]
      exact ⟨fun h _ _ => h, fun h => h rfl rfl⟩

/-- Settling a third time never changes anything. -/
theorem settle_settle_settle (t : FileTree) (p : Path) :
    t.settle (t.settle (t.settle p)) = t.settle (t.settle p) := by
  cases hexists : t.exists? (t.settle p) with
  | true =>
    obtain ⟨place, hlocate⟩ := exists?_iff.1 hexists
    obtain ⟨hsettle, hfixed⟩ := settle_of_locate hlocate
    rw [hsettle, hfixed]
  | false =>
    have hsettle := settle_of_not_exists hexists
    rw [(t.settle_normal p).1] at hsettle
    rw [hsettle, hsettle]

/-- What is stored for a path. -/
structure SettledTo (t : FileTree) (p stored : Path) : Prop where
  /-- It begins at the root. -/
  absolute : stored.isAbsolute = true
  /-- It is spelled without a detour. -/
  normal : stored.normalize = stored
  /-- It is the canonical path of a path that leads somewhere. -/
  canonical : t.exists? p = true → ∃ place, t.locate p = .ok place ∧ stored = pathOf place ∧
    t.locate stored = .ok place
  /-- It is the normal form of a path that leads nowhere. -/
  lexical : t.exists? p = false → stored = p.normalize
  /-- It settles to itself, unless it leads through a link where the path has led nowhere. -/
  fixed_iff : t.settle stored = stored ↔
    (t.exists? p = false → t.exists? stored = true → t.meetsLink stored.place.names = false)
  /-- What it settles to settles to itself. -/
  fixed : t.settle (t.settle stored) = t.settle stored

theorem settledTo_settle (t : FileTree) (habsolute : p.isAbsolute = true) :
    t.SettledTo p (t.settle p) where
  absolute := (t.settle_normal p).2.trans habsolute
  normal := (t.settle_normal p).1
  canonical h := by
    obtain ⟨place, hlocate⟩ := exists?_iff.1 h
    have hsettle := (settle_of_locate hlocate).1
    exact ⟨place, hlocate, hsettle, hsettle ▸ (stands_of_locate hlocate).locate_pathOf⟩
  lexical := settle_of_not_exists
  fixed_iff := settle_settle_iff habsolute
  fixed := t.settle_settle_settle p

end FileTree

/-! ### Configurations -/

theorem Path.isAbsolute_join_of_dir {dir : Path} (h : dir.isAbsolute = true) (p : Path) :
    (dir.join p).isAbsolute = true := by
  cases hp : p.isAbsolute with
  | true => rw [join, if_pos hp, hp]
  | false => rw [isAbsolute_join hp, h]

namespace Marker

variable {t : FileTree} {m : Marker}

/-- Seen from anywhere, a marker with absolute paths is settled as it stands. -/
theorem anchored_eq_settled (himplementation : m.implementation.isAbsolute = true)
    (hdeclaration : m.declaration.isAbsolute = true) (dir : Path) :
    m.anchored t dir = m.settled t := by
  rw [anchored, Path.join, Path.join, if_pos himplementation, if_pos hdeclaration]

theorem settled_eq_iff : m.settled t = m ↔
    t.settle m.implementation = m.implementation ∧ t.settle m.declaration = m.declaration := by
  obtain ⟨implementation, declaration, function⟩ := m
  simp [settled]

end Marker

theorem Config.checked_eq_ok_iff {c c' : Config} :
    c.checked = .ok c' ↔ c' = c ∧ c.defect? = none := by
  rw [checked]
  cases c.defect? <;> simp [eq_comm]

namespace Config

variable {t : FileTree}

/-- **The paths of a marker are settled when they are stored.** In a configuration that is read from a
text, seen from an absolute directory, the paths of the marker are what those in the text settle to,
and the configuration has no defect.  Seen from any directory once more, the marker is the same just
when its paths settle to themselves.  The paths of a marker made from absolute paths are stored in
the same way. -/
theorem ofText_settled (t : FileTree) :
    (∀ (text : String) (dir : Path) (c : Config), dir.isAbsolute = true → ofText t text dir = .ok c →
      (∃ written, read? text = some written ∧
        t.SettledTo (dir.join written.marker.implementation) c.marker.implementation ∧
        t.SettledTo (dir.join written.marker.declaration) c.marker.declaration) ∧
      (∀ dir', c.marker.anchored t dir' = c.marker ↔
        t.settle c.marker.implementation = c.marker.implementation ∧
          t.settle c.marker.declaration = c.marker.declaration) ∧
      c.checked = .ok c) ∧
    ∀ m : Marker, m.implementation.isAbsolute = true → m.declaration.isAbsolute = true →
      t.SettledTo m.implementation (m.settled t).implementation ∧
        t.SettledTo m.declaration (m.settled t).declaration := by
  refine ⟨fun text dir c hdir h => ?_, fun m himplementation hdeclaration =>
    ⟨t.settledTo_settle himplementation, t.settledTo_settle hdeclaration⟩⟩
  rw [ofText] at h
  split at h
  · cases h
  · rename_i written hread
    obtain ⟨rfl, hdefect⟩ := checked_eq_ok_iff.1 h
    have himplementation :=
      t.settledTo_settle (Path.isAbsolute_join_of_dir hdir written.marker.implementation)
    have hdeclaration :=
      t.settledTo_settle (Path.isAbsolute_join_of_dir hdir written.marker.declaration)
    refine ⟨⟨written, hread, himplementation, hdeclaration⟩, fun dir' => ?_,
      checked_eq_ok_iff.2 ⟨rfl, hdefect⟩⟩
    have hmarker := Marker.anchored_eq_settled (t := t) (m := written.marker.anchored t dir)
      himplementation.absolute hdeclaration.absolute dir'
    rw [hmarker]
    exact Marker.settled_eq_iff

end Config

namespace Sample

/-- A link to a file. -/
def linkedFile : FileTree :=
  ⟨[(["dates.js"], .file ⟨#[]⟩), (["dates.d.ts"], .file ⟨#[]⟩), (["link.js"], .link ⟨"/dates.js"⟩)]⟩

/-- A configuration that names the link. -/
def naming : String :=
  "[marker]\nimplementation = 'link.js'\ndeclaration = 'dates.d.ts'\n"

/-- The file behind the link is stored, whatever directory the marker is seen from afterwards. -/
theorem ofText_naming :
    let c : Config := .ofMarker ⟨⟨"/dates.js"⟩, ⟨"/dates.d.ts"⟩, Marker.standardFunction⟩
    Config.ofText linkedFile naming ⟨"/"⟩ = .ok c ∧
    (∀ dir', c.marker.anchored linkedFile dir' = c.marker) ∧
    linkedFile.SettledTo ⟨"/link.js"⟩ ⟨"/dates.js"⟩ := by
  intro c
  have htext : Config.ofText linkedFile naming ⟨"/"⟩ = .ok c := by decide +kernel
  obtain ⟨hconfig, hmarker⟩ := Config.ofText_settled linkedFile
  obtain ⟨-, hanchored, -⟩ := hconfig naming ⟨"/"⟩ c (by decide +kernel) htext
  have hlink := (hmarker ⟨⟨"/link.js"⟩, ⟨"/dates.d.ts"⟩, ""⟩ (by decide +kernel) (by decide +kernel)).1
  have hstored : linkedFile.settle ⟨"/link.js"⟩ = ⟨"/dates.js"⟩ := by decide +kernel
  rw [Marker.settled, hstored] at hlink
  exact ⟨htext, fun dir' => (hanchored dir').2 (by decide +kernel), hlink⟩

/-- A configuration that names the link by a detour through a directory that is not there. -/
def detourToLink : String :=
  "[marker]\nimplementation = 'missing/../link.js'\ndeclaration = 'dates.d.ts'\n"

/-- The link is stored, and the marker is another one when it is settled again. -/
theorem ofText_detourToLink :
    let c : Config := .ofMarker ⟨⟨"/link.js"⟩, ⟨"/dates.d.ts"⟩, Marker.standardFunction⟩
    Config.ofText linkedFile detourToLink ⟨"/"⟩ = .ok c ∧
    linkedFile.settle c.marker.implementation = ⟨"/dates.js"⟩ ∧
    c.marker.anchored linkedFile ⟨"/"⟩ ≠ c.marker := by
  decide +kernel

end Sample

end DateFields
