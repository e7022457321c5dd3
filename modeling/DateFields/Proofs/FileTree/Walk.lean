import DateFields.FileTree.Basic
import DateFields.Proofs.Path.Normal

/-!
# Where paths lead

* `FileTree.Stands`: something stands at a place, and the way there from the root goes through
  directories only, without a link;
* `FileTree.walkFrom_stands`, `FileTree.stands_of_locate`: walks end at such places;
* `FileTree.Stands.locate_pathOf`: the path of such a place leads there;
* `FileTree.settle_of_locate`: so it is the path that all paths to this place settle to.
-/

namespace DateFields

open Text

namespace FileTree

variable {t : FileTree} {p : Path} {place place' front : List String} {name : String}
  {ms : List Move}

/-! ### Moves -/

/-- A move into something goes by a name that can stand in a path. -/
def Move.Proper : Move → Prop
  | .into name => (Path.Component.name name).Ordinary
  | _ => True

theorem proper_of_mem_moves {m : Move} (h : m ∈ moves p) : m.Proper := by
  obtain ⟨segment, hsegment, rfl⟩ := List.mem_map.1 h
  unfold Move.ofSegment
  split
  · trivial
  · trivial
  · trivial
  · rename_i hempty hdot hup
    have hordinary : Path.Component.ofSegment segment = some (.name (String.ofList segment)) := by
      unfold Path.Component.ofSegment
      split
      · exact absurd rfl hempty
      · exact absurd rfl hdot
      · exact absurd rfl hup
      · rfl
    have htext := Path.Component.text_of_ofSegment hordinary
    exact ⟨htext.symm ▸ not_cut_of_mem_splitOn hsegment, htext.symm ▸ hordinary⟩

theorem Move.ofSegment_of_ordinary (h : (Path.Component.name name).Ordinary) :
    Move.ofSegment name.toList = .into name := by
  have hsegment : Path.Component.ofSegment name.toList = some (.name name) := h.ofSegment
  unfold Move.ofSegment
  split
  · rename_i hname
    rw [hname] at hsegment
    cases hsegment
  · rename_i hname
    rw [hname] at hsegment
    cases hsegment
  · rename_i hname
    rw [hname] at hsegment
    cases hsegment
  · rw [String.ofList_toList]

/-! ### Places -/

theorem isDirectoryAt_iff : t.isDirectoryAt place = true ↔ t.entryAt? place = some .directory := by
  unfold isDirectoryAt
  split <;> simp_all

/-- Something stands at the place, and the way there goes through directories only. -/
structure Stands (t : FileTree) (place : List String) : Prop where
  /-- Every name on the way can stand in a path. -/
  names : ∀ name ∈ place, (Path.Component.name name).Ordinary
  /-- What is above the place is a directory. -/
  above : ∀ front name back, place = front ++ name :: back → t.isDirectoryAt front = true
  /-- A file or a directory stands there, and no link. -/
  entry : ∃ e, t.entryAt? place = some e ∧ ∀ target, e ≠ .link target

theorem stands_root (t : FileTree) : t.Stands [] :=
  ⟨nofun, fun _ _ _ h => by simp at h, .directory, rfl, nofun⟩

theorem Stands.dropLast (h : t.Stands place) : t.Stands place.dropLast := by
  rcases List.eq_nil_or_concat place with rfl | ⟨front, name, rfl⟩
  · exact h
  · rw [List.concat_eq_append] at h
    rw [List.concat_eq_append, List.dropLast_concat]
    refine ⟨fun s hs => h.names s (List.mem_append_left _ hs), fun f n b hfront => ?_, ?_⟩
    · exact h.above f n (b ++ [name]) (by simp [hfront])
    · exact ⟨.directory, isDirectoryAt_iff.1 (h.above front name [] rfl), nofun⟩

theorem Stands.into (h : t.Stands place) (hdirectory : t.isDirectoryAt place = true)
    (hname : (Path.Component.name name).Ordinary) {e : Entry}
    (he : t.entryAt? (place ++ [name]) = some e) (hlink : ∀ target, e ≠ .link target) :
    t.Stands (place ++ [name]) := by
  refine ⟨fun s hs => ?_, fun front n back hplace => ?_, e, he, hlink⟩
  · rcases List.mem_append.1 hs with hs | hs
    · exact h.names s hs
    · exact List.mem_singleton.1 hs ▸ hname
  · rcases List.eq_nil_or_concat back with rfl | ⟨back, last, rfl⟩
    · rwa [(List.append_inj' hplace rfl).1] at hdirectory
    · rw [List.concat_eq_append, ← List.cons_append, ← List.append_assoc] at hplace
      exact h.above front n back (List.append_inj' hplace rfl).1

variable {link : List String → List Move → Except Fault (List String)}

/-- What a walk does at a move: it stands in a directory, and goes on from there, from the directory
above, from behind a link, or from what stands under a name. -/
theorem walkFrom_cons {m : Move} (h : t.walkFrom link place (m :: ms) = .ok place') :
    t.isDirectoryAt place = true ∧
      (m = .stay ∧ t.walkFrom link place ms = .ok place' ∨
        m = .up ∧ t.walkFrom link place.dropLast ms = .ok place' ∨
        (∃ name target, m = .into name ∧ t.entryAt? (place ++ [name]) = some (.link target) ∧
          link (if target.isAbsolute then [] else place) (moves target ++ ms) = .ok place') ∨
        ∃ name e, m = .into name ∧ t.entryAt? (place ++ [name]) = some e ∧
          (∀ target, e ≠ .link target) ∧ t.walkFrom link (place ++ [name]) ms = .ok place') := by
  cases hdirectory : t.isDirectoryAt place with
  | false =>
    unfold walkFrom at h
    rw [hdirectory] at h
    cases h
  | true =>
    refine ⟨rfl, ?_⟩
    unfold walkFrom at h
    rw [hdirectory] at h
    cases m with
    | stay => exact .inl ⟨rfl, h⟩
    | up => exact .inr (.inl ⟨rfl, h⟩)
    | into name =>
      cases hentry : t.entryAt? (place ++ [name]) with
      | none =>
        simp only [hentry] at h
        cases h
      | some e =>
        simp only [hentry] at h
        cases e with
        | link target => exact .inr (.inr (.inl ⟨name, target, rfl, hentry, h⟩))
        | directory => exact .inr (.inr (.inr ⟨name, _, rfl, hentry, nofun, h⟩))
        | file => exact .inr (.inr (.inr ⟨name, _, rfl, hentry, nofun, h⟩))

/-- A walk goes from place to place. -/
theorem walkFrom_stands (hlink : ∀ place ms, t.Stands place → (∀ m ∈ ms, m.Proper) →
      link place ms = .ok place' → t.Stands place')
    (h : t.Stands place) (hms : ∀ m ∈ ms, m.Proper)
    (hwalk : t.walkFrom link place ms = .ok place') : t.Stands place' := by
  induction ms generalizing place with
  | nil =>
    rw [walkFrom] at hwalk
    exact Except.ok.inj hwalk ▸ h
  | cons m ms ih =>
    obtain ⟨hm, hrest⟩ := List.forall_mem_cons.1 hms
    obtain ⟨hdirectory, ⟨-, hwalk⟩ | ⟨-, hwalk⟩ | ⟨name, target, rfl, -, hwalk⟩ |
      ⟨name, e, rfl, he, hlink', hwalk⟩⟩ := walkFrom_cons hwalk
    · exact ih h hrest hwalk
    · exact ih h.dropLast hrest hwalk
    · -- behind a link, the walk goes along its target and then along the moves that are left
      refine hlink _ _ ?_ (fun m hm => ?_) hwalk
      · split
        · exact t.stands_root
        · exact h
      · exact (List.mem_append.1 hm).elim proper_of_mem_moves (hrest m)
    · exact ih (h.into hdirectory hm he hlink') hrest hwalk

theorem walk_stands (n : Nat) (h : t.Stands place) (hms : ∀ m ∈ ms, m.Proper)
    (hwalk : t.walk n place ms = .ok place') : t.Stands place' := by
  induction n generalizing place ms with
  | zero =>
    rw [walk] at hwalk
    refine walkFrom_stands (fun place ms _ _ hlink => ?_) h hms hwalk
    cases hlink
  | succ n ih =>
    rw [walk] at hwalk
    exact walkFrom_stands (fun _ _ hplace hmoves hlink => ih hplace hmoves hlink) h hms hwalk

/-- A path leads to a place to which the way goes through directories only. -/
theorem stands_of_locate (h : t.locate p = .ok place) : t.Stands place := by
  rw [locate] at h
  split at h
  · exact walk_stands _ t.stands_root (fun _ => proper_of_mem_moves) h
  · cases h

/-! ### The path of a place -/

theorem pathOf_eq (place : List String) :
    pathOf place = Path.ofComponents (.root :: place.map .name) := by
  cases place with
  | nil => rfl
  | cons name place =>
    have htexts : (place.map Path.Component.name).map Path.Component.text = place := by
      rw [List.map_map]
      exact List.map_id place
    refine congrArg Path.mk ?_
    rw [List.map_cons, List.map_cons, List.map_cons, htexts, String.intercalate_cons_cons]
    rfl

theorem moves_pathOf (h : ∀ name ∈ place, (Path.Component.name name).Ordinary) :
    moves (pathOf place) = .stay :: if place = [] then [.stay] else place.map .into := by
  cases place with
  | nil => rfl
  | cons name place =>
    have hspellable : Path.Spellable (.root :: (name :: place).map .name) :=
      .intro [.root] _ .root (List.forall_mem_map.2 h)
    rw [moves, pathOf_eq, Path.segments_ofComponents (by simp) (by simp) hspellable.segment,
      if_neg (List.cons_ne_nil name place), List.map_cons, List.map_cons, List.map_map,
      List.map_map]
    refine congrArg (Move.stay :: ·) (List.map_congr_left fun name hname => ?_)
    exact Move.ofSegment_of_ordinary (h name hname)

/-- The way to a place is walked name by name. -/
theorem Stands.walkFrom_into {back : List String} (h : t.Stands (front ++ back)) :
    t.walkFrom link front (back.map .into) = .ok (front ++ back) := by
  induction back generalizing front with
  | nil =>
    rw [List.map_nil, walkFrom, List.append_nil]
  | cons name back ih =>
    have hdirectory : t.isDirectoryAt front = true := h.above front name back rfl
    have happend : front ++ name :: back = (front ++ [name]) ++ back := by simp
    rw [happend] at h ⊢
    -- what stands under the name is a directory on the way or, at its end, what stands at the place
    obtain ⟨e, he, hlink⟩ : ∃ e, t.entryAt? (front ++ [name]) = some e ∧
        ∀ target, e ≠ .link target := by
      cases back with
      | nil => simpa using h.entry
      | cons next back => exact ⟨.directory, isDirectoryAt_iff.1 (h.above _ next back rfl), nofun⟩
    rw [List.map_cons, ← ih h]
    cases e with
    | link target => exact absurd rfl (hlink target)
    | directory => simp [walkFrom, hdirectory, he]
    | file => simp [walkFrom, hdirectory, he]

theorem exists_walk_eq (t : FileTree) (n : Nat) : ∃ link, t.walk n = t.walkFrom link := by
  cases n with
  | zero => exact ⟨_, rfl⟩
  | succ n => exact ⟨_, rfl⟩

/-- The path of a place leads there. -/
theorem Stands.locate_pathOf (h : t.Stands place) : t.locate (pathOf place) = .ok place := by
  have habsolute : (pathOf place).isAbsolute = true := by
    rw [pathOf_eq]
    exact Path.isAbsolute_ofComponents_root _
  -- no link is met on the way, so it does not matter how many are allowed
  obtain ⟨link, hlink⟩ := t.exists_walk_eq linkLimit
  have hwalk : t.locate (pathOf place) =
      t.walkFrom link [] (if place = [] then [.stay] else place.map .into) := by
    rw [locate, habsolute, if_pos rfl, hlink, moves_pathOf h.names]
    rfl
  rw [hwalk]
  split
  · subst place
    rfl
  · exact h.walkFrom_into

/-- Paths that lead to a place settle to one path, the path of the place, and that settles to
itself. -/
theorem settle_of_locate (h : t.locate p = .ok place) :
    t.settle p = pathOf place ∧ t.settle (pathOf place) = pathOf place := by
  have hpath := (stands_of_locate h).locate_pathOf
  rw [settle, settle, h, hpath]
  exact ⟨rfl, rfl⟩

end FileTree

end DateFields
