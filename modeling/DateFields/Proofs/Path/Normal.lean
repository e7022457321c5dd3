import DateFields.Proofs.Path.Place
import DateFields.Proofs.Text.Nesting

/-!
# Normal forms of paths

* `Path.Spellable`: components that are those of a path; spelled out, they are found again
  (`components_ofComponents`), and one more of them is a path read from there (`join_ofComponents`);
* `Path.Canonical`: a path is spelled without a detour;
* `Path.collapse`: a path is collapsed one component after the other, with a look at what has been
  collected so far, and the outcome is its normal form (`Path.collapse_eq_normalize`);
* `Path.normalize_spec`: normal forms are canonical, tell places apart, and may be taken before or
  after a path is read from a directory.
-/

namespace DateFields

open Text

namespace Path

variable {p q : Path} {c : Component} {cs front body : List Component}

/-! ### Components that are spelled out -/

theorem ext_toList (h : p.text.toList = q.text.toList) : p = q :=
  congrArg Path.mk (String.toList_inj.1 h)

theorem Component.Ordinary.isAbsolute (h : c.Ordinary) : isAbsolute ⟨c.text⟩ = false := by
  obtain ⟨d, segment, htext⟩ := List.exists_cons_of_ne_nil h.text_ne_nil
  rw [Path.isAbsolute, htext]
  exact h.segment d (htext ▸ List.mem_cons_self)

theorem Component.Ordinary.text_ne_dot (h : c.Ordinary) : c.text.toList ≠ ['.'] := by
  intro hdot
  have hsegment := h.ofSegment
  rw [hdot] at hsegment
  cases hsegment

theorem Component.Ordinary.ne_root (h : c.Ordinary) : c ≠ .root := by
  rintro rfl
  exact h.text_ne_nil rfl

/-- The components can be those of a path: a beginning, and ordinary steps. -/
inductive Spellable : List Component → Prop
  /-- Every path is of this form. -/
  | intro (front body : List Component) (hfront : Front front) (hbody : ∀ c ∈ body, c.Ordinary) :
    Spellable (front ++ body)

theorem spellable_components (p : Path) : Spellable p.components :=
  .intro p.start p.steps p.front_start fun _ => ordinary_of_mem_steps

theorem Spellable.append (h : Spellable cs) (hc : c.Ordinary) : Spellable (cs ++ [c]) := by
  obtain ⟨front, body, hfront, hbody⟩ := h
  rw [List.append_assoc]
  refine .intro front (body ++ [c]) hfront fun c' hc' => ?_
  rcases List.mem_append.1 hc' with hc' | hc'
  · exact hbody c' hc'
  · exact List.mem_singleton.1 hc' ▸ hc

/-- The last component is an ordinary one, unless it is the only one. -/
theorem Spellable.concat_cases (h : Spellable (cs ++ [c])) :
    cs = [] ∨ Spellable cs ∧ c.Ordinary := by
  generalize hall : cs ++ [c] = all at h
  obtain ⟨front, body, hfront, hbody⟩ := h
  rcases List.eq_nil_or_concat body with rfl | ⟨body, last, rfl⟩
  · rw [List.append_nil] at hall
    cases hfront <;> simp_all [List.append_eq_singleton_iff]
  · rw [List.concat_eq_append] at hall hbody
    rw [← List.append_assoc] at hall
    obtain ⟨rfl, hlast⟩ := List.append_inj' hall rfl
    obtain rfl := List.singleton_inj.1 hlast
    exact .inr ⟨.intro front body hfront fun d hd => hbody d (List.mem_append_left _ hd),
      hbody c (by simp)⟩

theorem Spellable.of_concat (h : Spellable (cs ++ [c])) : Spellable cs :=
  h.concat_cases.elim (fun hnil => hnil ▸ .intro [] [] .none nofun) And.left

theorem Spellable.segment (h : Spellable cs) :
    ∀ c ∈ cs, ∀ d ∈ c.text.toList, (d == '/') = false := by
  obtain ⟨front, body, hfront, hbody⟩ := h
  intro c hc
  rcases List.mem_append.1 hc with hc | hc
  · exact hfront.text c hc
  · exact (hbody c hc).segment

/-- The beginning of what is spelled out is the beginning of the components. -/
theorem start_ofComponents (hfront : Front front) (hbody : ∀ c ∈ body, c.Ordinary) :
    (ofComponents (front ++ body)).start = front := by
  have htext := (Spellable.intro front body hfront hbody).segment
  rw [start]
  cases hfront with
  | root => exact if_pos (isAbsolute_ofComponents_root body)
  | here =>
    rw [List.singleton_append] at htext ⊢
    rw [not_isAbsolute_ofComponents (by simp [Component.text]) (htext _ List.mem_cons_self),
      if_neg Bool.false_ne_true, segments_ofComponents (by simp) (by simp) htext]
    rfl
  | none =>
    rw [List.nil_append] at htext ⊢
    cases body with
    | nil => rfl
    | cons c body =>
      have hc := hbody c List.mem_cons_self
      have hroot : c :: body ≠ [.root] := fun hroot => hc.ne_root (List.cons.inj hroot).1
      rw [not_isAbsolute_ofComponents hc.text_ne_nil hc.segment, if_neg Bool.false_ne_true,
        segments_ofComponents hroot (by simp) htext, List.map_cons, List.head?_cons, if_neg]
      exact fun hdot => hc.text_ne_dot (Option.some.inj hdot)

/-- Components that are spelled out are found again. -/
theorem Spellable.components_ofComponents (h : Spellable cs) :
    (ofComponents cs).components = cs := by
  have htext := h.segment
  obtain ⟨front, body, hfront, hbody⟩ := h
  rw [components, start_ofComponents hfront hbody, ← steps, steps_ofComponents htext,
    List.filterMap_append, hfront.filterMap, filterMap_of_ordinary hbody, List.nil_append]

/-- The path without its last component is spelled out by the other ones. -/
theorem Spellable.parent?_ofComponents (h : Spellable (cs ++ [c])) (hc : c ≠ .root) :
    (ofComponents (cs ++ [c])).parent? = some (ofComponents cs) := by
  rw [parent?, h.components_ofComponents, List.reverse_append, List.reverse_singleton,
    List.singleton_append]
  cases c with
  | root => exact absurd rfl hc
  | _ => simp

theorem concat_ne_root (hc : c.Ordinary) (cs : List Component) : cs ++ [c] ≠ [.root] := by
  intro hroot
  have hlast := congrArg List.getLast? hroot
  rw [List.getLast?_concat] at hlast
  exact hc.ne_root (Option.some.inj hlast)

/-- Behind other components, a component is set off by a slash. -/
theorem toList_text_concat (hc : c.Ordinary) (hnil : cs ≠ []) :
    (ofComponents (cs ++ [c])).text.toList =
      ['/'].intercalate (cs.map (·.text.toList)) ++ '/' :: c.text.toList := by
  rw [toList_text_ofComponents (concat_ne_root hc cs), List.map_append, List.map_singleton,
    intercalate_append (by simpa using hnil) (by simp), List.intercalate_singleton,
    List.append_assoc, List.singleton_append]

theorem Component.Ordinary.exists_getLast? (hc : c.Ordinary) (cs : List Component) :
    ∃ d, (ofComponents (cs ++ [c])).text.toList.getLast? = some d ∧ (d == '/') = false := by
  obtain ⟨segment, d, htext⟩ := (List.eq_nil_or_concat c.text.toList).resolve_left hc.text_ne_nil
  rw [List.concat_eq_append] at htext
  refine ⟨d, ?_, hc.segment d (htext ▸ List.mem_append_right _ (List.mem_singleton_self d))⟩
  by_cases hnil : cs = []
  · rw [hnil, toList_text_ofComponents (concat_ne_root hc []), List.nil_append, List.map_singleton,
      List.intercalate_singleton, htext, List.getLast?_concat]
  · rw [toList_text_concat hc hnil, htext, ← List.cons_append, ← List.append_assoc,
      List.getLast?_concat]

/-- Nothing but the root is spelled with a slash at its end. -/
theorem Spellable.exists_getLast? (h : Spellable cs) (hnil : cs ≠ []) (hroot : cs ≠ [.root]) :
    ∃ d, (ofComponents cs).text.toList.getLast? = some d ∧ (d == '/') = false := by
  obtain ⟨front, body, hfront, hbody⟩ := h
  rcases List.eq_nil_or_concat body with rfl | ⟨body, c, rfl⟩
  · rw [List.append_nil] at hnil hroot ⊢
    cases hfront with
    | root => exact absurd rfl hroot
    | here => exact ⟨'.', rfl, rfl⟩
    | none => exact absurd rfl hnil
  · rw [List.concat_eq_append] at hbody ⊢
    rw [← List.append_assoc]
    exact (hbody c (by simp)).exists_getLast? _

theorem Spellable.text_ne_empty (h : Spellable cs) (hnil : cs ≠ []) :
    (ofComponents cs).text ≠ "" := by
  intro hempty
  by_cases hroot : cs = [.root]
  · rw [hroot] at hempty
    exact absurd hempty (by decide)
  · obtain ⟨d, hlast, -⟩ := h.exists_getLast? hnil hroot
    rw [hempty] at hlast
    cases hlast

/-- One more component that is spelled out is a path read from there. -/
theorem Spellable.join_ofComponents (h : Spellable cs) (hc : c.Ordinary) :
    (ofComponents cs).join ⟨c.text⟩ = ofComponents (cs ++ [c]) := by
  rw [join, hc.isAbsolute, if_neg Bool.false_ne_true]
  apply ext_toList
  by_cases hnil : cs = []
  · subst hnil
    rw [toList_text_ofComponents (concat_ne_root hc [])]
    simp [ofComponents]
  by_cases hroot : cs = [.root]
  · subst hroot
    rw [toList_text_concat hc hnil]
    simp [ofComponents, Component.text]
  · obtain ⟨d, hlast, hslash⟩ := h.exists_getLast? hnil hroot
    have hempty := h.text_ne_empty hnil
    rw [toList_text_concat hc hnil, ← toList_text_ofComponents hroot]
    simp_all

end Path

/-! ### Collapsing a path -/

namespace Place

variable {a : Place} {c : Path.Component}

/-- The steps to a place, none of them to the start itself. -/
def way (a : Place) : List Path.Component :=
  (match a.anchor with
    | .root => [.root]
    | .above n => List.replicate n .up) ++ a.names.map .name

theorem Proper.spellable_way (h : a.Proper) : Path.Spellable a.way := by
  obtain ⟨anchor, names⟩ := a
  cases anchor with
  | root => exact .intro [.root] _ .root (List.forall_mem_map.2 h)
  | above n =>
    refine .intro [] (List.replicate n .up ++ names.map .name) .none fun c hc => ?_
    rcases List.mem_append.1 hc with hc | hc
    · exact List.eq_of_mem_replicate hc ▸ ordinary_up
    · exact List.forall_mem_map.2 h c hc

theorem way_concat (anchor : Anchor) (names : List String) (s : String) :
    way ⟨anchor, names ++ [s]⟩ = way ⟨anchor, names⟩ ++ [.name s] := by
  simp [way]

theorem way_ne_nil (h : a ≠ start) : a.way ≠ [] := by
  match a, h with
  | ⟨.root, _⟩, _ => exact nofun
  | ⟨.above 0, []⟩, h => exact absurd rfl h
  | ⟨.above 0, _ :: _⟩, _ => exact nofun
  | ⟨.above (_ + 1), _⟩, _ => exact nofun

/-- Only the start itself is told by another component than the steps to it. -/
theorem components_eq_way (h : a ≠ start) : a.components = a.way := by
  match a, h with
  | ⟨.root, _⟩, _ => rfl
  | ⟨.above 0, []⟩, h => exact absurd rfl h
  | ⟨.above 0, _ :: _⟩, _ => rfl
  | ⟨.above (_ + 1), _⟩, _ => rfl

end Place

namespace Path

variable {a : Place} {c : Component} {cs : List Component}

/-- A component as a path of its own. -/
def Component.path : Component → Path
  | .root => ⟨"/"⟩
  | c => ⟨c.text⟩

/-- One more component collapsed onto a path: `..` takes back the last name of the path, stays at the
root, and is kept where there is nothing to take back. -/
def collapseStep (out : Path) : Component → Path
  | .here => out
  | .up =>
    match out.components.getLast? with
    | some (.name _) => out.parent?.getD out
    | some .root => out
    | _ => out.join Component.up.path
  | c => out.join c.path

/-- A path collapsed component by component; `.` when nothing is left of it. -/
def collapse (p : Path) : Path :=
  let out := p.components.foldl collapseStep ⟨""⟩
  if out.text.isEmpty then ⟨"."⟩ else out

/-- What has been collapsed so far is spelled as the way to the place where the path has led. -/
theorem collapseStep_way (h : a.Proper) (hc : c.Ordinary) :
    collapseStep (ofComponents a.way) c = ofComponents (a.step c).way := by
  have hway := h.spellable_way
  have hcomponents := hway.components_ofComponents
  obtain ⟨anchor, names⟩ := a
  cases c with
  | root => exact absurd rfl hc.ne_root
  | here => exact absurd rfl hc.text_ne_dot
  | name s =>
    rw [Place.step, Place.way_concat]
    exact hway.join_ofComponents hc
  | up =>
    rw [collapseStep, hcomponents]
    rcases List.eq_nil_or_concat names with rfl | ⟨names, s, rfl⟩
    · cases anchor with
      | root => rfl
      | above n =>
        have hup : Place.way ⟨.above (n + 1), []⟩ = Place.way ⟨.above n, []⟩ ++ [.up] := by
          simp [Place.way, List.replicate_succ']
        rw [Place.step, hup, ← hway.join_ofComponents hc]
        cases n <;> simp [Place.way, Component.path, List.getLast?_replicate]
    · rw [List.concat_eq_append] at hway ⊢
      have hstep : Place.step ⟨anchor, names ++ [s]⟩ .up = ⟨anchor, names⟩ := by
        cases names with
        | nil => rfl
        | cons => exact congrArg (Place.mk anchor) List.dropLast_concat
      rw [Place.way_concat] at hway ⊢
      rw [hstep, hway.parent?_ofComponents (by simp), List.getLast?_concat]
      rfl

theorem foldl_collapseStep (h : a.Proper) (hcs : ∀ c ∈ cs, c.Ordinary) :
    cs.foldl collapseStep (ofComponents a.way) = ofComponents (cs.foldl Place.step a).way := by
  induction cs generalizing a with
  | nil => rfl
  | cons c cs ih =>
    obtain ⟨hc, hcs⟩ := List.forall_mem_cons.1 hcs
    rw [List.foldl_cons, List.foldl_cons, collapseStep_way h hc, ih (h.step hc) hcs]

theorem collapse_eq_normalize (p : Path) : p.collapse = p.normalize := by
  have hstart : p.start.foldl collapseStep ⟨""⟩ = ofComponents p.origin.way := by
    unfold start origin
    split
    · rfl
    · split <;> rfl
  have horigin : p.origin.Proper := Place.proper_origin p
  have hout : p.components.foldl collapseStep ⟨""⟩ = ofComponents p.place.way := by
    rw [components, List.foldl_append, hstart, ← steps,
      foldl_collapseStep horigin fun _ => ordinary_of_mem_steps, ← place_eq]
  rw [collapse, hout, normalize, Place.path]
  by_cases hplace : p.place = .start
  · rw [hplace]
    rfl
  · have hway : p.place.way ≠ [] := Place.way_ne_nil hplace
    have hempty := (Place.proper_place p).spellable_way.text_ne_empty hway
    rw [Place.components_eq_way hplace]
    simp [hempty]

/-! ### Canonical spellings -/

/-- The path is spelled without a detour. -/
structure Canonical (p : Path) : Prop where
  /-- A segment `.` is the whole path. -/
  dot : ['.'] ∈ p.segments → p.text = "."
  /-- No segment is empty, but for the one in front of a leading slash, and the root. -/
  full : [] ∈ p.segments.drop (if p.isAbsolute then 1 else 0) → p.text = "/"
  /-- `..` comes behind nothing but `..`, so neither behind a name nor behind the root. -/
  up : ∀ front back, p.segments = front ++ ['.', '.'] :: back → ∀ s ∈ front, s = ['.', '.']

theorem Spellable.ordinary_of_mem (h : Spellable cs) (hc : c ∈ cs) :
    c = .root ∨ c = .here ∨ c.Ordinary := by
  obtain ⟨front, body, hfront, hbody⟩ := h
  rcases List.mem_append.1 hc with hc | hc
  · cases hfront with
    | root => exact .inl (List.mem_singleton.1 hc)
    | here => exact .inr (.inl (List.mem_singleton.1 hc))
    | none => cases hc
  · exact .inr (.inr (hbody c hc))

/-- A component is told by its spelling. -/
theorem Spellable.eq_of_text (h : Spellable cs) (hc : c ∈ cs) :
    (c.text.toList = [] → c = .root) ∧ (c.text.toList = ['.'] → c = .here) ∧
      (c.text.toList = ['.', '.'] → c = .up) := by
  rcases h.ordinary_of_mem hc with rfl | rfl | hc
  · simp [Component.text]
  · simp [Component.text]
  · refine ⟨fun htext => absurd htext hc.text_ne_nil, fun htext => absurd htext hc.text_ne_dot,
      fun htext => ?_⟩
    have hsegment := hc.ofSegment
    rw [htext] at hsegment
    exact (Option.some.inj hsegment).symm

/-- What tells a place begins with the root at most, and only the beginning is absolute. -/
theorem Spellable.root_not_mem_drop (h : Spellable cs) :
    .root ∉ cs.drop (if (ofComponents cs).isAbsolute then 1 else 0) := by
  obtain ⟨front, body, hfront, hbody⟩ := h
  have hbody' : .root ∉ body := fun hmem => (hbody _ hmem).ne_root rfl
  cases hfront with
  | root =>
    rw [List.singleton_append, isAbsolute_ofComponents_root]
    exact hbody'
  | here => exact fun hmem => hbody' (by simpa using List.mem_of_mem_drop hmem)
  | none => exact fun hmem => hbody' (List.mem_of_mem_drop hmem)

end Path

namespace Place

variable {a : Place}

theorem Proper.spellable_components (h : a.Proper) : Path.Spellable a.components := by
  obtain ⟨front, body, hcomponents, hfront, hbody⟩ := h.exists_components
  exact hcomponents ▸ .intro front body hfront hbody

/-- A step leads from the root to the root only. -/
theorem anchor_step {c : Path.Component} (hc : c.Ordinary) :
    (a.step c).anchor = .root ↔ a.anchor = .root := by
  cases c with
  | root => exact absurd rfl hc.ne_root
  | here => exact absurd rfl hc.text_ne_dot
  | name s => rfl
  | up =>
    obtain ⟨anchor, names⟩ := a
    cases names with
    | nil => cases anchor <;> simp [step]
    | cons => rfl

theorem anchor_foldl_step {cs : List Path.Component} (hcs : ∀ c ∈ cs, c.Ordinary) :
    (cs.foldl step a).anchor = .root ↔ a.anchor = .root := by
  induction cs generalizing a with
  | nil => rfl
  | cons c cs ih =>
    obtain ⟨hc, hcs⟩ := List.forall_mem_cons.1 hcs
    rw [List.foldl_cons, ih hcs, anchor_step hc]

theorem components_ne_nil (a : Place) : a.components ≠ [] := by
  by_cases h : a = start
  · rw [h]
    exact nofun
  · exact components_eq_way h ▸ way_ne_nil h

/-- `.` only tells the start. -/
theorem components_of_here_mem (h : .here ∈ a.components) : a.components = [.here] := by
  match a, h with
  | ⟨.root, _⟩, h => simp [components] at h
  | ⟨.above 0, []⟩, _ => rfl
  | ⟨.above 0, _ :: _⟩, h => simp [components] at h
  | ⟨.above (_ + 1), _⟩, h => simp [components] at h

/-- The steps up to a place come first. -/
theorem eq_up_of_components {front back : List Path.Component}
    (h : a.components = front ++ .up :: back) : ∀ c ∈ front, c = .up := by
  have hnames : .up ∉ a.names.map Path.Component.name := by simp
  have hmem : .up ∈ a.components := by simp [h]
  obtain ⟨anchor, names⟩ := a
  cases anchor with
  | root => simp [components] at hmem
  | above n =>
    have hstart : Place.mk (.above n) names ≠ start := by
      intro hstart
      rw [hstart] at hmem
      simp [components, start] at hmem
    rw [components_eq_way hstart, way, List.append_eq_append_iff] at h
    rcases h with ⟨more, -, hmore⟩ | ⟨more, hmore, -⟩
    · exact absurd (hmore ▸ List.mem_append_right _ List.mem_cons_self) hnames
    · intro c hc
      exact List.eq_of_mem_replicate (hmore ▸ List.mem_append_left _ hc)

end Place

namespace Path

/-- Places are spelled without a detour. -/
theorem canonical_path {a : Place} (h : a.Proper) : a.path.Canonical := by
  have hspellable := h.spellable_components
  by_cases hroot : a.components = [.root]
  · rw [Place.path, hroot]
    refine ⟨by decide, fun _ => rfl, fun front back hsegments => ?_⟩
    have hmem : ['.', '.'] ∈ (ofComponents [.root]).segments := by simp [hsegments]
    exact absurd hmem (by decide)
  have hnil : a.components ≠ [] := a.components_ne_nil
  have hsegments : a.path.segments = a.components.map (·.text.toList) :=
    segments_ofComponents hroot hnil hspellable.segment
  refine ⟨fun hdot => ?_, fun hempty => ?_, fun front back hup => ?_⟩
  · rw [hsegments] at hdot
    obtain ⟨c, hc, htext⟩ := List.mem_map.1 hdot
    obtain rfl := (hspellable.eq_of_text hc).2.1 htext
    rw [Place.path, Place.components_of_here_mem hc]
    rfl
  · rw [hsegments, ← List.map_drop] at hempty
    obtain ⟨c, hc, htext⟩ := List.mem_map.1 hempty
    obtain rfl := (hspellable.eq_of_text (List.mem_of_mem_drop hc)).1 htext
    exact absurd hc hspellable.root_not_mem_drop
  · rw [hsegments, List.map_eq_append_iff] at hup
    obtain ⟨before, rest, hcomponents, rfl, hrest⟩ := hup
    obtain ⟨c, after, rfl, htext, -⟩ := List.map_eq_cons_iff.1 hrest
    have hc : c ∈ a.components := by simp [hcomponents]
    obtain rfl := (hspellable.eq_of_text hc).2.2 htext
    refine List.forall_mem_map.2 fun c' hc' => ?_
    rw [Place.eq_up_of_components hcomponents c' hc']
    rfl

/-! ### Normal forms -/

/-- Only a path that is absolute leads to a place below the root. -/
theorem anchor_place_eq_root (p : Path) : p.place.anchor = .root ↔ p.isAbsolute = true := by
  have horigin : p.origin.anchor = .root ↔ p.isAbsolute = true := by
    unfold origin
    split <;> simp_all [Place.start]
  rw [place_eq, ← horigin]
  exact Place.anchor_foldl_step fun _ => ordinary_of_mem_steps

theorem isAbsolute_normalize (p : Path) : p.normalize.isAbsolute = p.isAbsolute := by
  rw [Bool.eq_iff_iff, ← anchor_place_eq_root, ← anchor_place_eq_root, place_normalize]

theorem place_join_normalize (p q : Path) : (p.normalize.join q).place = (p.join q).place :=
  place_join_congr p.place_normalize q

/-- The normal form of a path is what collapsing it component by component gives.  It is spelled
without a detour, and it is absolute just when the path is.  It tells the place where the path leads,
and nothing else, as a text and as a list of components.  It is its own normal form, and that of a
path read from a directory is the same for the normal form of the directory. -/
theorem normalize_spec (p q : Path) :
    p.collapse = p.normalize ∧
      p.normalize.Canonical ∧
      p.normalize.isAbsolute = p.isAbsolute ∧
      (p.normalize = q.normalize ↔ p.place = q.place) ∧
      (p.normalize.components = q.normalize.components ↔ p.place = q.place) ∧
      p.normalize.normalize = p.normalize ∧
      (p.join q).normalize = (p.normalize.join q).normalize := by
  refine ⟨p.collapse_eq_normalize, canonical_path (Place.proper_place p), p.isAbsolute_normalize,
    normalize_eq_iff, ⟨fun h => ?_, fun h => ?_⟩, normalize_eq_iff.2 p.place_normalize,
    normalize_eq_iff.2 (place_join_normalize p q).symm⟩
  · rw [← p.place_normalize, place, h, ← place, q.place_normalize]
  · rw [normalize_eq_iff.2 h]

end Path

end DateFields
