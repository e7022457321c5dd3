import DateFields.Proofs.FileTree.Walk

/-!
# Ways through links

A walk along a path goes on behind every link it meets, and gives up after so many of them.

* `FileTree.Route`: a way along moves from one place to another, with the number of links on it;
* `FileTree.locate_eq_ok_iff`: a path leads where a way with few enough links goes;
* `FileTree.takesBackLink`: a path goes down to a link and then back by `..`;
* `FileTree.Route.follow`: without that, a way goes where the names go that are left on the text
  alone, and through as many links;
* `FileTree.locate_normalize`: so a path that takes back no link leads where its normal form does.
-/

namespace DateFields

open Text

namespace FileTree

variable {t : FileTree} {p : Path} {place place' mid names : List String} {ms ms' : List Move}
  {i j k n : Nat}

/-! ### Ways -/

/-- A way along moves from one place to another, through so many links. -/
inductive Route (t : FileTree) : List String → List Move → Nat → List String → Prop
  /-- No moves are left. -/
  | arrived {place : List String} : Route t place [] 0 place
  /-- One can stand still in a directory. -/
  | stay {place place' : List String} {ms : List Move} {n : Nat}
    (hdirectory : t.isDirectoryAt place = true) (rest : Route t place ms n place') :
    Route t place (.stay :: ms) n place'
  /-- To the directory above. -/
  | up {place place' : List String} {ms : List Move} {n : Nat}
    (hdirectory : t.isDirectoryAt place = true) (rest : Route t place.dropLast ms n place') :
    Route t place (.up :: ms) n place'
  /-- To what stands under a name. -/
  | into {place place' : List String} {name : String} {ms : List Move} {n : Nat} {e : Entry}
    (hdirectory : t.isDirectoryAt place = true) (hentry : t.entryAt? (place ++ [name]) = some e)
    (hlink : ∀ target, e ≠ .link target) (rest : Route t (place ++ [name]) ms n place') :
    Route t place (.into name :: ms) n place'
  /-- Along the target of a link. -/
  | link {place place' : List String} {name : String} {ms : List Move} {n : Nat} {target : Path}
    (hdirectory : t.isDirectoryAt place = true)
    (hentry : t.entryAt? (place ++ [name]) = some (.link target))
    (rest : Route t (if target.isAbsolute then [] else place) (moves target ++ ms) n place') :
    Route t place (.into name :: ms) (n + 1) place'

/-- A walk is a way, with one link more for every walk behind a link. -/
theorem route_of_walkFrom {link : List String → List Move → Except Fault (List String)}
    (hlink : ∀ place ms, link place ms = .ok place' → ∃ k, k + 1 ≤ n ∧ t.Route place ms k place')
    (h : t.walkFrom link place ms = .ok place') : ∃ k ≤ n, t.Route place ms k place' := by
  induction ms generalizing place with
  | nil =>
    rw [walkFrom] at h
    obtain rfl := Except.ok.inj h
    exact ⟨0, Nat.zero_le n, .arrived⟩
  | cons m ms ih =>
    obtain ⟨hdirectory, ⟨rfl, hwalk⟩ | ⟨rfl, hwalk⟩ | ⟨name, target, rfl, hentry, hwalk⟩ |
      ⟨name, e, rfl, hentry, hnone, hwalk⟩⟩ := walkFrom_cons h
    · obtain ⟨k, hk, rest⟩ := ih hwalk
      exact ⟨k, hk, .stay hdirectory rest⟩
    · obtain ⟨k, hk, rest⟩ := ih hwalk
      exact ⟨k, hk, .up hdirectory rest⟩
    · obtain ⟨k, hk, rest⟩ := hlink _ _ hwalk
      exact ⟨k + 1, hk, .link hdirectory hentry rest⟩
    · obtain ⟨k, hk, rest⟩ := ih hwalk
      exact ⟨k, hk, .into hdirectory hentry hnone rest⟩

theorem route_of_walk (h : t.walk n place ms = .ok place') : ∃ k ≤ n, t.Route place ms k place' := by
  induction n generalizing place ms with
  | zero =>
    rw [walk] at h
    exact route_of_walkFrom (fun _ _ hlink => by cases hlink) h
  | succ n ih =>
    rw [walk] at h
    refine route_of_walkFrom (fun place ms hlink => ?_) h
    obtain ⟨k, hk, rest⟩ := ih hlink
    exact ⟨k, Nat.succ_le_succ hk, rest⟩

theorem Route.walk_eq (h : t.Route place ms k place') (hk : k ≤ n) :
    t.walk n place ms = .ok place' := by
  induction h generalizing n with
  | arrived =>
    obtain ⟨link, hlink⟩ := t.exists_walk_eq n
    rw [hlink, walkFrom]
  | stay hdirectory _ ih =>
    obtain ⟨link, hlink⟩ := t.exists_walk_eq n
    have hrest := ih hk
    rw [hlink] at hrest ⊢
    simp [walkFrom, hdirectory, hrest]
  | up hdirectory _ ih =>
    obtain ⟨link, hlink⟩ := t.exists_walk_eq n
    have hrest := ih hk
    rw [hlink] at hrest ⊢
    simp [walkFrom, hdirectory, hrest]
  | @into _ _ _ _ _ e hdirectory hentry hnone _ ih =>
    obtain ⟨link, hlink⟩ := t.exists_walk_eq n
    have hrest := ih hk
    rw [hlink] at hrest ⊢
    cases e with
    | link target => exact absurd rfl (hnone target)
    | directory => simp [walkFrom, hdirectory, hentry, hrest]
    | file => simp [walkFrom, hdirectory, hentry, hrest]
  | link hdirectory hentry _ ih =>
    obtain ⟨n, rfl⟩ := Nat.exists_eq_add_one.2 (Nat.zero_lt_of_lt hk)
    have hrest := ih (Nat.le_of_succ_le_succ hk)
    simp [walk, walkFrom, hdirectory, hentry, hrest]

/-- Walking is looking for a way with few enough links. -/
theorem walk_eq_ok_iff : t.walk n place ms = .ok place' ↔ ∃ k ≤ n, t.Route place ms k place' :=
  ⟨route_of_walk, fun ⟨_, hk, h⟩ => h.walk_eq hk⟩

theorem locate_eq_ok_iff : t.locate p = .ok place ↔
    p.isAbsolute = true ∧ ∃ n ≤ linkLimit, t.Route [] (moves p) n place := by
  rw [locate]
  split
  · rename_i habsolute
    rw [walk_eq_ok_iff, and_iff_right habsolute]
  · rename_i habsolute
    exact iff_of_false (fun h => by cases h) fun h => habsolute h.1

/-- A path leads to something just when it leads to a place. -/
theorem exists?_iff : t.exists? p = true ↔ ∃ place, t.locate p = .ok place := by
  rw [exists?, find?]
  constructor
  · intro h
    split at h
    · exact ⟨_, ‹_›⟩
    · cases h
  · rintro ⟨place, h⟩
    obtain ⟨e, he, -⟩ := (stands_of_locate h).entry
    rw [h]
    exact Option.isSome_of_eq_some he

/-! ### Ways put together -/

theorem Route.append (h : t.Route place ms i mid) (h' : t.Route mid ms' j place') :
    t.Route place (ms ++ ms') (i + j) place' := by
  induction h with
  | arrived => rwa [Nat.zero_add]
  | stay hdirectory _ ih => exact .stay hdirectory (ih h')
  | up hdirectory _ ih => exact .up hdirectory (ih h')
  | into hdirectory hentry hnone _ ih => exact .into hdirectory hentry hnone (ih h')
  | link hdirectory hentry _ ih =>
    have hrest := ih h'
    rw [List.append_assoc] at hrest
    rw [Nat.add_right_comm]
    exact .link hdirectory hentry hrest

/-- A way along moves and then others passes the place where the first ones lead. -/
theorem Route.exists_mid (h : t.Route place (ms ++ ms') n place') :
    ∃ mid i j, i + j = n ∧ t.Route place ms i mid ∧ t.Route mid ms' j place' := by
  generalize hall : ms ++ ms' = all at h
  induction h generalizing ms with
  | arrived =>
    obtain ⟨rfl, rfl⟩ := List.append_eq_nil_iff.1 hall
    exact ⟨_, 0, 0, rfl, .arrived, .arrived⟩
  | stay hdirectory rest ih =>
    cases ms with
    | nil =>
      obtain rfl : ms' = _ := hall
      exact ⟨_, 0, _, Nat.zero_add _, .arrived, .stay hdirectory rest⟩
    | cons m ms =>
      obtain ⟨rfl, hms⟩ := List.cons.inj hall
      obtain ⟨mid, i, j, hij, hfront, hback⟩ := ih hms
      exact ⟨mid, i, j, hij, .stay hdirectory hfront, hback⟩
  | up hdirectory rest ih =>
    cases ms with
    | nil =>
      obtain rfl : ms' = _ := hall
      exact ⟨_, 0, _, Nat.zero_add _, .arrived, .up hdirectory rest⟩
    | cons m ms =>
      obtain ⟨rfl, hms⟩ := List.cons.inj hall
      obtain ⟨mid, i, j, hij, hfront, hback⟩ := ih hms
      exact ⟨mid, i, j, hij, .up hdirectory hfront, hback⟩
  | into hdirectory hentry hnone rest ih =>
    cases ms with
    | nil =>
      obtain rfl : ms' = _ := hall
      exact ⟨_, 0, _, Nat.zero_add _, .arrived, .into hdirectory hentry hnone rest⟩
    | cons m ms =>
      obtain ⟨rfl, hms⟩ := List.cons.inj hall
      obtain ⟨mid, i, j, hij, hfront, hback⟩ := ih hms
      exact ⟨mid, i, j, hij, .into hdirectory hentry hnone hfront, hback⟩
  | link hdirectory hentry rest ih =>
    cases ms with
    | nil =>
      obtain rfl : ms' = _ := hall
      exact ⟨_, 0, _, Nat.zero_add _, .arrived, .link hdirectory hentry rest⟩
    | cons m ms =>
      obtain ⟨rfl, rfl⟩ := List.cons.inj hall
      obtain ⟨mid, i, j, rfl, hfront, hback⟩ := ih (List.append_assoc _ _ _)
      exact ⟨mid, i + 1, j, Nat.add_right_comm _ _ _, .link hdirectory hentry hfront, hback⟩

/-! ### Names on the text alone -/

/-- The names left after a move, on the text alone. -/
def Move.along (names : List String) : Move → List String
  | .stay => names
  | .up => names.dropLast
  | .into name => names ++ [name]

theorem foldl_step_ofSegment (segments : List (List Char)) (names : List String) :
    (segments.filterMap Path.Component.ofSegment).foldl Place.step ⟨.root, names⟩ =
      ⟨.root, (segments.map Move.ofSegment).foldl Move.along names⟩ := by
  induction segments generalizing names with
  | nil => rfl
  | cons segment segments ih =>
    have hup : Place.step ⟨.root, names⟩ .up = ⟨.root, names.dropLast⟩ := by
      cases names <;> rfl
    rw [List.map_cons, List.foldl_cons, ← ih]
    unfold Move.ofSegment Path.Component.ofSegment
    split <;> simp_all [Move.along, Place.step]

/-- Below the root, the moves of a path lead on the text alone to its place. -/
theorem names_place (h : p.isAbsolute = true) : p.place.names = (moves p).foldl Move.along [] := by
  rw [Path.place_eq, Path.origin, if_pos h, Path.steps, foldl_step_ofSegment, moves]

/-- The normal form of a path from the root is the path of the names left on the text alone. -/
theorem normalize_eq_pathOf (h : p.isAbsolute = true) : p.normalize = pathOf p.place.names := by
  have hroot := p.anchor_place_eq_root.2 h
  rw [Path.normalize, Place.path, Place.components, hroot, pathOf_eq]

/-- The path of some names leads where the way down these names goes. -/
theorem locate_pathOf_eq_ok_iff (h : ∀ name ∈ names, (Path.Component.name name).Ordinary) :
    t.locate (pathOf names) = .ok place ↔
      ∃ n ≤ linkLimit, t.Route [] (names.map .into) n place := by
  have habsolute : (pathOf names).isAbsolute = true := by
    rw [pathOf_eq]
    exact Path.isAbsolute_ofComponents_root _
  have hstay : ∀ ms n, t.Route [] (.stay :: ms) n place ↔ t.Route [] ms n place := by
    refine fun ms n => ⟨fun hroute => ?_, .stay rfl⟩
    cases hroute with
    | stay _ rest => exact rest
  rw [locate_eq_ok_iff, and_iff_right habsolute, moves_pathOf h]
  simp only [hstay]
  split
  · subst names
    simp only [hstay, List.map_nil]
  · rfl

/-! ### Links taken back -/

/-- A link. -/
def Entry.isLink : Entry → Bool
  | .link _ => true
  | _ => false

/-- A link stands under the last of the names, the other ones followed from the root. -/
def isLinkAt (t : FileTree) (names : List String) : Bool :=
  match names.getLast?, t.walk linkLimit [] (names.dropLast.map .into) with
  | some name, .ok dir => (t.entryAt? (dir ++ [name])).any Entry.isLink
  | _, _ => false

/-- Moves that come behind some names go back by `..` over one under which a link stands. -/
def takesBackLinkFrom (t : FileTree) : List String → List Move → Bool
  | _, [] => false
  | names, .stay :: ms => t.takesBackLinkFrom names ms
  | names, .into name :: ms => t.takesBackLinkFrom (names ++ [name]) ms
  | names, .up :: ms => t.isLinkAt names || t.takesBackLinkFrom names.dropLast ms

/-- The path goes down to a link and then back by `..`. -/
def takesBackLink (t : FileTree) (p : Path) : Bool := t.takesBackLinkFrom [] (moves p)

/-- Where no link stands, the last name is taken back on the way as it is on the text. -/
theorem Route.dropLast (h : t.Route [] (names.map .into) n place) (hn : n ≤ linkLimit)
    (hlink : t.isLinkAt names = false) :
    t.Route [] (names.dropLast.map .into) n place.dropLast := by
  rcases List.eq_nil_or_concat names with rfl | ⟨front, name, rfl⟩
  · cases h
    exact .arrived
  · rw [List.concat_eq_append] at h hlink ⊢
    rw [List.dropLast_concat]
    rw [List.map_append, List.map_singleton] at h
    obtain ⟨dir, i, j, rfl, hfront, hlast⟩ := h.exists_mid
    have hwalk := hfront.walk_eq (Nat.le_trans (Nat.le_add_right i j) hn)
    rw [isLinkAt, List.getLast?_concat, List.dropLast_concat, hwalk] at hlink
    cases hlast with
    | into _ _ _ rest =>
      cases rest
      rwa [List.dropLast_concat]
    | link _ hentry _ => simp [hentry, Entry.isLink] at hlink

/-- As long as no link is taken back, moves lead where the names lead that are left on the text
alone, through as many links. -/
theorem Route.follow (hfront : t.Route [] (names.map .into) i mid) (h : t.Route mid ms j place)
    (hlimit : i + j ≤ linkLimit) (hback : t.takesBackLinkFrom names ms = false) :
    t.Route [] ((ms.foldl Move.along names).map .into) (i + j) place := by
  induction ms generalizing names mid i j with
  | nil =>
    cases h
    exact hfront
  | cons m ms ih =>
    rw [List.foldl_cons]
    cases m with
    | stay =>
      cases h with
      | stay _ rest => exact ih hfront rest hlimit hback
    | up =>
      obtain ⟨hlink, hback⟩ := Bool.or_eq_false_iff.1 hback
      cases h with
      | up _ rest =>
        exact ih (hfront.dropLast (Nat.le_trans (Nat.le_add_right i j) hlimit) hlink) rest hlimit
          hback
    | into name =>
      have hsplit : t.Route mid ([.into name] ++ ms) j place := h
      obtain ⟨next, k, l, rfl, hnext, rest⟩ := hsplit.exists_mid
      have hnames := hfront.append hnext
      rw [← List.map_singleton (f := Move.into), ← List.map_append] at hnames
      rw [← Nat.add_assoc] at hlimit ⊢
      exact ih hnames rest hlimit hback

/-- A path that takes back no link leads where its normal form does. -/
theorem locate_normalize (h : t.locate p = .ok place) (hback : t.takesBackLink p = false) :
    t.locate p.normalize = .ok place := by
  obtain ⟨habsolute, n, hn, hroute⟩ := locate_eq_ok_iff.1 h
  have hroot : t.Route [] (([] : List String).map .into) 0 [] := .arrived
  have hfollow := hroot.follow hroute (by rwa [Nat.zero_add]) hback
  rw [normalize_eq_pathOf habsolute, locate_pathOf_eq_ok_iff (Place.proper_place p),
    names_place habsolute]
  exact ⟨_, by rwa [Nat.zero_add], hfollow⟩

end FileTree

end DateFields
