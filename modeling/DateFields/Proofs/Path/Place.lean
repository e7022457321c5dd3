import DateFields.Path.Place

/-!
# Spellings of a place

Paths with the same normal form lead to the same place, and what is found from there does not depend
on the spelling either.

* `Path.place_eq` — the walk along the steps of a path, from the root or from the start;
* `Path.place_ofComponents` — components that are spelled out lead where they say;
* `Path.normalize_eq_iff` — normal forms are the same when the places are;
* `Path.place_join` — a relative path leads on from the place of the directory;
* `Path.place_directory` — the directory of a file stands at the place above it.
-/

namespace DateFields

open Text

namespace Path

/-! ### Steps -/

/-- Where the walk along a path begins. -/
def origin (p : Path) : Place := if p.isAbsolute then ⟨.root, []⟩ else .start

/-- The steps of a path behind its beginning. -/
def steps (p : Path) : List Component := p.segments.filterMap Component.ofSegment

/-- The component is what its own spelling stands for. -/
structure Component.Ordinary (c : Component) : Prop where
  /-- It is spelled as one segment. -/
  segment : ∀ d ∈ c.text.toList, (d == '/') = false
  /-- The segment stands for it. -/
  ofSegment : Component.ofSegment c.text.toList = some c

variable {p q dir : Path} {c : Component} {cs front body : List Component}

theorem Component.text_of_ofSegment {segment : List Char} (h : ofSegment segment = some c) :
    c.text.toList = segment := by
  unfold ofSegment at h
  split at h
  · cases h
  · cases h
  · cases h
    rfl
  · cases h
    exact String.toList_ofList

theorem ordinary_of_mem_steps (h : c ∈ p.steps) : c.Ordinary := by
  obtain ⟨segment, hsegment, hc⟩ := List.mem_filterMap.1 h
  have htext := Component.text_of_ofSegment hc
  exact ⟨htext ▸ not_cut_of_mem_splitOn hsegment, htext ▸ hc⟩

theorem place_eq (p : Path) : p.place = p.steps.foldl Place.step p.origin := by
  rw [place, components, List.foldl_append, steps]
  congr 1
  unfold start origin
  split
  · rfl
  · split <;> rfl

/-! ### Spelling components out -/

/-- The beginning of a list of components is the root, a dot, or nothing. -/
inductive Front : List Component → Prop
  /-- The path is absolute. -/
  | root : Front [.root]
  /-- The path begins with a dot. -/
  | here : Front [.here]
  /-- The path begins with a step. -/
  | none : Front []

theorem front_start (p : Path) : Front p.start := by
  unfold start
  split
  · exact .root
  · split
    · exact .here
    · exact .none

theorem Front.text (h : Front front) : ∀ c ∈ front, ∀ d ∈ c.text.toList, (d == '/') = false := by
  cases h <;> simp [Component.text]

theorem Front.filterMap (h : Front front) :
    front.filterMap (fun c => Component.ofSegment c.text.toList) = [] := by
  cases h <;> rfl

theorem filterMap_of_ordinary (h : ∀ c ∈ body, c.Ordinary) :
    body.filterMap (fun c => Component.ofSegment c.text.toList) = body := by
  induction body with
  | nil => rfl
  | cons c body ih =>
    obtain ⟨hc, hbody⟩ := List.forall_mem_cons.1 h
    simp only [List.filterMap_cons, hc.ofSegment, ih hbody]

theorem toList_text_ofComponents (h : cs ≠ [.root]) :
    (ofComponents cs).text.toList = ['/'].intercalate (cs.map (·.text.toList)) := by
  have hplain : ofComponents cs = ⟨"/".intercalate (cs.map Component.text)⟩ := by
    rw [ofComponents]
    exact h
  rw [hplain, String.toList_intercalate, List.map_map]
  rfl

/-- Components that are spelled out are the segments of their spelling. -/
theorem segments_ofComponents (hroot : cs ≠ [.root]) (hnil : cs ≠ [])
    (h : ∀ c ∈ cs, ∀ d ∈ c.text.toList, (d == '/') = false) :
    (ofComponents cs).segments = cs.map (·.text.toList) := by
  rw [segments, toList_text_ofComponents hroot]
  exact splitOn_intercalate rfl (by simpa using hnil) (List.forall_mem_map.2 h)

theorem steps_ofComponents (h : ∀ c ∈ cs, ∀ d ∈ c.text.toList, (d == '/') = false) :
    (ofComponents cs).steps = cs.filterMap fun c => Component.ofSegment c.text.toList := by
  by_cases hroot : cs = [.root]
  · subst hroot
    rfl
  by_cases hnil : cs = []
  · subst hnil
    rfl
  rw [steps, segments_ofComponents hroot hnil h, List.filterMap_map]
  rfl

theorem isAbsolute_ofComponents_root (cs : List Component) :
    (ofComponents (.root :: cs)).isAbsolute = true := by
  cases cs with
  | nil => rfl
  | cons c cs =>
    rw [isAbsolute, toList_text_ofComponents (by simp), List.map_cons, List.map_cons,
      List.intercalate_cons_cons]
    rfl

theorem not_isAbsolute_ofComponents (htext : c.text.toList ≠ [])
    (h : ∀ d ∈ c.text.toList, (d == '/') = false) (cs : List Component) :
    (ofComponents (c :: cs)).isAbsolute = false := by
  have hroot : c ≠ .root := by
    rintro rfl
    exact htext rfl
  rw [isAbsolute, toList_text_ofComponents (by simp [hroot]), List.map_cons]
  generalize c.text.toList = segment at htext h
  obtain ⟨d, segment, rfl⟩ := List.exists_cons_of_ne_nil htext
  have hhead : (['/'].intercalate ((d :: segment) :: cs.map (·.text.toList))).head? = some d := by
    cases cs with
    | nil => simp
    | cons c' cs => simp [List.intercalate_cons_cons]
  rw [hhead]
  simpa using h d List.mem_cons_self

theorem Component.Ordinary.text_ne_nil (h : c.Ordinary) : c.text.toList ≠ [] := by
  intro hnil
  have hsegment := h.ofSegment
  rw [hnil] at hsegment
  cases hsegment

/-- The beginning of what is spelled out is found again. -/
theorem origin_ofComponents (hfront : Front front) (hbody : ∀ c ∈ body, c.Ordinary) :
    (ofComponents (front ++ body)).origin = front.foldl Place.step .start := by
  rw [origin]
  cases hfront with
  | root =>
    rw [List.singleton_append, isAbsolute_ofComponents_root]
    rfl
  | here =>
    have htext := Front.here.text .here (List.mem_singleton_self _)
    rw [List.singleton_append, not_isAbsolute_ofComponents (by simp [Component.text]) htext]
    rfl
  | none =>
    cases body with
    | nil => rfl
    | cons c body =>
      have hc := hbody c List.mem_cons_self
      rw [List.nil_append, not_isAbsolute_ofComponents hc.text_ne_nil hc.segment]
      rfl

/-- Components that are spelled out lead where they say. -/
theorem place_ofComponents (hfront : Front front) (hbody : ∀ c ∈ body, c.Ordinary) :
    (ofComponents (front ++ body)).place = (front ++ body).foldl Place.step .start := by
  have htext : ∀ c ∈ front ++ body, ∀ d ∈ c.text.toList, (d == '/') = false := by
    intro c hc
    rcases List.mem_append.1 hc with hc | hc
    · exact hfront.text c hc
    · exact (hbody c hc).segment
  rw [place_eq, steps_ofComponents htext, List.filterMap_append, hfront.filterMap,
    filterMap_of_ordinary hbody, List.nil_append, origin_ofComponents hfront hbody,
    List.foldl_append]

/-! ### Normal forms -/

end Path

namespace Place

variable {a b : Place}

/-- Every name of the place can stand in a path. -/
def Proper (a : Place) : Prop := ∀ s ∈ a.names, (Path.Component.name s).Ordinary

theorem Proper.step (h : a.Proper) {c : Path.Component} (hc : c.Ordinary) : (a.step c).Proper := by
  cases c with
  | root => simp [Place.step, Proper]
  | here => exact h
  | name s =>
    intro s' hs'
    rcases List.mem_append.1 hs' with hs' | hs'
    · exact h s' hs'
    · rwa [List.mem_singleton.1 hs']
  | up =>
    obtain ⟨anchor, names⟩ := a
    rw [Place.step]
    split
    · exact h
    · simp [Proper]
    · exact fun s hs => h s (List.dropLast_subset _ hs)

theorem proper_origin (p : Path) : p.origin.Proper := by
  unfold Path.origin
  split <;> simp [Proper, start]

theorem proper_place (p : Path) : p.place.Proper := by
  rw [Path.place_eq]
  exact List.foldlRecOn p.steps Place.step (proper_origin p) fun _ h _ hc =>
    h.step (Path.ordinary_of_mem_steps hc)

theorem foldl_step_names (a : Place) (names : List String) :
    (names.map Path.Component.name).foldl step a = ⟨a.anchor, a.names ++ names⟩ := by
  induction names generalizing a with
  | nil => simp
  | cons s names ih => simp [ih, step]

theorem foldl_step_ups (levels n : Nat) :
    (List.replicate n Path.Component.up).foldl step ⟨.above levels, []⟩ =
      ⟨.above (levels + n), []⟩ := by
  induction n generalizing levels with
  | zero => rfl
  | succ n ih =>
    rw [List.replicate_succ, List.foldl_cons, step, ih, Nat.add_right_comm, Nat.add_assoc]

/-- The way to a place leads there. -/
theorem foldl_step_components : ∀ a : Place, a.components.foldl step start = a
  | ⟨.root, names⟩ => foldl_step_names ⟨.root, []⟩ names
  | ⟨.above 0, []⟩ => rfl
  | ⟨.above 0, s :: names⟩ => foldl_step_names start (s :: names)
  | ⟨.above (n + 1), names⟩ => by
    have hcomponents : components ⟨.above (n + 1), names⟩ =
        List.replicate (n + 1) .up ++ names.map .name := rfl
    rw [hcomponents, List.foldl_append, start, foldl_step_ups, foldl_step_names, Nat.zero_add,
      List.nil_append]

theorem ordinary_up : Path.Component.up.Ordinary := ⟨by simp [Path.Component.text], rfl⟩

/-- The way to a place begins as paths do, and goes on with ordinary steps. -/
theorem Proper.exists_components : ∀ {a : Place}, a.Proper →
    ∃ front body, a.components = front ++ body ∧ Path.Front front ∧ ∀ c ∈ body, c.Ordinary
  | ⟨.root, _⟩, h => ⟨[.root], _, rfl, .root, List.forall_mem_map.2 h⟩
  | ⟨.above 0, []⟩, _ => ⟨[.here], [], rfl, .here, by simp⟩
  | ⟨.above 0, _ :: _⟩, h => ⟨[], _, rfl, .none, List.forall_mem_map.2 h⟩
  | ⟨.above (n + 1), names⟩, h => by
    refine ⟨[], List.replicate (n + 1) .up ++ names.map .name, rfl, .none, fun c hc => ?_⟩
    rcases List.mem_append.1 hc with hc | hc
    · rw [List.eq_of_mem_replicate hc]
      exact ordinary_up
    · exact List.forall_mem_map.2 h c hc

theorem Proper.place_path (h : a.Proper) : a.path.place = a := by
  obtain ⟨front, body, hcomponents, hfront, hbody⟩ := h.exists_components
  rw [path, hcomponents, Path.place_ofComponents hfront hbody, ← hcomponents, foldl_step_components]

end Place

namespace Path

variable {p q dir s : Path}

/-- A normal form leads where the path leads. -/
theorem place_normalize (p : Path) : p.normalize.place = p.place :=
  (Place.proper_place p).place_path

/-- The normal form of a path tells its place, and nothing more. -/
theorem normalize_eq_iff : p.normalize = q.normalize ↔ p.place = q.place := by
  constructor
  · intro h
    rw [← p.place_normalize, h, q.place_normalize]
  · intro h
    rw [normalize, normalize, h]

/-! ### Directories -/

/-- What stands in front of the last name of a path. -/
theorem components_of_fileName? {name : String} (h : p.fileName? = some name) :
    ∃ body, p.components = p.start ++ body ++ [.name name] ∧ ∀ c ∈ body, c.Ordinary := by
  rcases List.eq_nil_or_concat p.steps with hnil | ⟨body, c, hsteps⟩
  · have hstart : p.components = p.start := by rw [components, ← steps, hnil, List.append_nil]
    have hfront := p.front_start
    rw [fileName?, hstart] at h
    generalize p.start = front at h hfront
    cases hfront <;> cases h
  · rw [List.concat_eq_append] at hsteps
    have hordinary : ∀ c ∈ body, c.Ordinary := fun c' hc' =>
      ordinary_of_mem_steps (hsteps ▸ List.mem_append_left _ hc')
    have hcomponents : p.components = p.start ++ body ++ [c] := by
      rw [components, ← steps, hsteps, List.append_assoc]
    rw [fileName?, hcomponents, List.getLast?_concat] at h
    cases c with
    | name s =>
      cases h
      exact ⟨body, hcomponents, hordinary⟩
    | _ => cases h

/-- The directory of a file stands at the place above that of the file. -/
theorem place_directory {name : String} (h : p.fileName? = some name) :
    p.directory.place = ⟨p.place.anchor, p.place.names.dropLast⟩ := by
  obtain ⟨body, hcomponents, hbody⟩ := components_of_fileName? h
  have hparent : p.parent? = some (ofComponents (p.start ++ body)) := by
    rw [parent?, hcomponents, List.reverse_append]
    simp
  have hplace : p.place = ((p.start ++ body).foldl Place.step .start).step (.name name) := by
    rw [place, hcomponents, List.foldl_append]
    rfl
  rw [directory, hparent, Option.getD_some, place_ofComponents p.front_start hbody, hplace,
    Place.step, List.dropLast_concat]

theorem splitOn_slash (as bs : List Char) : splitOn (· == '/') (as ++ '/' :: bs) =
    splitOn (· == '/') as ++ splitOn (· == '/') bs :=
  splitOn_append_cut rfl as bs

/-- A relative path that is seen from a directory is spelled behind a slash, unless the directory is
spelled with no characters. -/
theorem text_join (dir : Path) (hs : s.isAbsolute = false) :
    (dir.text = "" ∧ dir.join s = s) ∨
      ∃ head, (dir.join s).text.toList = head ++ '/' :: s.text.toList ∧
        (dir.text.toList = head ++ ['/'] ∨ dir.text.toList = head ∧ head ≠ []) := by
  rw [join, if_neg (by simp [hs])]
  by_cases hempty : dir.text = ""
  · exact .inl ⟨hempty, by simp [hempty]⟩
  cases hslash : dir.text.toList.getLast? == some '/' with
  | true =>
    obtain ⟨head, hhead⟩ := List.getLast?_eq_some_iff.1 (beq_iff_eq.1 hslash)
    exact .inr ⟨head, by simp [hhead], .inl hhead⟩
  | false => exact .inr ⟨dir.text.toList, by simp [hempty], .inr ⟨rfl, by simpa using hempty⟩⟩

/-- The steps of a relative path seen from a directory come behind those of the directory. -/
theorem steps_join (hs : s.isAbsolute = false) : (dir.join s).steps = dir.steps ++ s.steps := by
  rcases text_join dir hs with ⟨hempty, hjoin⟩ | ⟨head, hjoin, hdir⟩
  · have hnone : dir.steps = [] := by
      rw [steps, segments, hempty]
      rfl
    rw [hjoin, hnone, List.nil_append]
  · have hsteps : dir.steps = (splitOn (· == '/') head).filterMap Component.ofSegment := by
      rcases hdir with hdir | ⟨hdir, -⟩
      · rw [steps, segments, hdir, splitOn_slash, List.filterMap_append]
        exact List.append_nil _
      · rw [steps, segments, hdir]
    rw [hsteps, steps, segments, hjoin, splitOn_slash, List.filterMap_append]
    rfl

theorem isAbsolute_join (hs : s.isAbsolute = false) :
    (dir.join s).isAbsolute = dir.isAbsolute := by
  rcases text_join dir hs with ⟨hempty, hjoin⟩ | ⟨head, hjoin, hdir⟩
  · rw [hjoin, hs, isAbsolute, hempty]
    rfl
  · rw [isAbsolute, isAbsolute, hjoin]
    rcases hdir with hdir | ⟨hdir, hhead⟩
    · rw [hdir, List.head?_append, List.head?_append]
      rfl
    · obtain ⟨d, head, rfl⟩ := List.exists_cons_of_ne_nil hhead
      rw [hdir]
      rfl

/-- The path begins where the directory does. -/
theorem origin_join (hs : s.isAbsolute = false) : (dir.join s).origin = dir.origin := by
  rw [origin, origin, isAbsolute_join hs]

/-- A relative path leads on from the place of the directory. -/
theorem place_join (hs : s.isAbsolute = false) :
    (dir.join s).place = s.steps.foldl Place.step dir.place := by
  rw [place_eq, steps_join hs, origin_join hs, List.foldl_append, ← place_eq]

/-- What a path seen from a directory leads to is told by the place of the directory. -/
theorem place_join_congr {dir' : Path} (h : dir.place = dir'.place) (s : Path) :
    (dir.join s).place = (dir'.join s).place := by
  cases hs : s.isAbsolute with
  | true => rw [join, join, if_pos hs, if_pos hs]
  | false => rw [place_join hs, place_join hs, h]

end Path

end DateFields
