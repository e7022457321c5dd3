import DateFields.Proofs.Path.Normal

/-!
# Texts behind a path

What a path becomes when `.js` is put behind its spelling, or taken away there.

* `Path.components_join`: the components of a path seen from a directory that is spelled out;
* `Path.Spellable.exists_stem`: a text that ends in `.js` is a path seen from a directory, with `.js`
  behind its last name;
* `Path.components_normalize_eq_iff`: without `.js` at its end, a normal form has the components of
  another one when it is that one, and also when nothing but `.` or an empty name is left behind it.
-/

namespace DateFields

open Text

namespace Path

variable {dir s : Path} {cs : List Component} {c : Component}

/-! ### Texts behind a path -/

/-- A path seen from a directory that is spelled out begins as the directory does. -/
theorem start_join (hs : s.isAbsolute = false) (hdir : dir.text ≠ "") :
    (dir.join s).start = dir.start := by
  obtain ⟨head, hjoin, hdir⟩ := (text_join dir hs).resolve_left fun h => hdir h.1
  have hsegments : (dir.join s).segments.head? = dir.segments.head? := by
    have hne : splitOn (· == '/') head ≠ [] := splitOn_ne_nil head
    obtain ⟨piece, pieces, hpieces⟩ := List.exists_cons_of_ne_nil hne
    rw [segments, segments, hjoin, splitOn_slash, hpieces]
    rcases hdir with hdir | ⟨hdir, -⟩
    · rw [hdir, splitOn_slash, hpieces]
      rfl
    · rw [hdir, hpieces]
      rfl
  rw [start, start, isAbsolute_join hs, hsegments]

theorem components_join (hs : s.isAbsolute = false) (hdir : dir.text ≠ "") :
    (dir.join s).components = dir.components ++ s.steps := by
  rw [components, start_join hs hdir, ← steps, steps_join hs, components, ← steps,
    List.append_assoc]

/-- What is put behind the spelling of a relative path is put behind the path wherever it is seen
from. -/
theorem text_join_append (dir : Path) {text more : String}
    (htext : isAbsolute ⟨text⟩ = false) (hmore : isAbsolute ⟨text ++ more⟩ = false) :
    (dir.join ⟨text ++ more⟩).text = (dir.join ⟨text⟩).text ++ more := by
  rw [join, join, htext, hmore]
  simp only [Bool.false_eq_true, if_false]
  split <;> simp [String.append_assoc]

/-- A text behind the spelling of components is behind that of the last one. -/
theorem Spellable.exists_concat (h : Spellable cs) {stem more : List Char} (hmore : more ≠ [])
    (hslash : ∀ d ∈ more, (d == '/') = false)
    (htext : (ofComponents cs).text.toList = stem ++ more) :
    ∃ front c last, cs = front ++ [c] ∧ c.text.toList = last ++ more := by
  obtain ⟨pieces, last, hpieces⟩ := exists_splitOn_append hslash stem
  have hsegments : (ofComponents cs).segments = pieces ++ [last ++ more] := by
    rw [segments, htext, hpieces]
  by_cases hnil : cs = []
  · subst hnil
    exact absurd (List.append_eq_nil_iff.1 htext.symm).2 hmore
  by_cases hroot : cs = [.root]
  · subst hroot
    have hlast := congrArg List.getLast? hsegments
    rw [List.getLast?_concat] at hlast
    exact absurd (List.append_eq_nil_iff.1 (Option.some.inj hlast).symm).2 hmore
  · rw [segments_ofComponents hroot hnil h.segment, List.map_eq_append_iff] at hsegments
    obtain ⟨front, rest, rfl, -, hrest⟩ := hsegments
    obtain ⟨c, rest, rfl, hc, hrest⟩ := List.map_eq_cons_iff.1 hrest
    rw [List.map_eq_nil_iff] at hrest
    exact ⟨front, c, last, by rw [hrest], hc⟩

/-- A text that ends in `.js` is a path seen from a directory, with `.js` behind its last name. -/
theorem Spellable.exists_stem (h : Spellable cs) {stem : String}
    (htext : (ofComponents cs).text = stem ++ ".js") :
    ∃ front c last, cs = front ++ [c] ∧ Spellable front ∧ c.Ordinary ∧
      c.text = String.ofList last ++ ".js" ∧ (∀ d ∈ last, (d == '/') = false) ∧
      Path.mk stem = (ofComponents front).join ⟨String.ofList last⟩ := by
  have hlist : (ofComponents cs).text.toList = stem.toList ++ ".js".toList := by
    rw [htext, String.toList_append]
  obtain ⟨front, c, last, rfl, hc⟩ := h.exists_concat (by decide) (by simp) hlist
  have hordinary : c.Ordinary := by
    rcases h.ordinary_of_mem (List.mem_append_right front (List.mem_singleton_self c)) with
      rfl | rfl | hordinary
    · simp [Component.text] at hc
    · have hlength := congrArg List.length hc
      simp [Component.text] at hlength
    · exact hordinary
  have hfront := h.of_concat
  have hlast : ∀ d ∈ last, (d == '/') = false := fun d hd =>
    hordinary.segment d (hc ▸ List.mem_append_left _ hd)
  have hname : c.text = String.ofList last ++ ".js" := by
    rw [← String.toList_inj]
    simpa using hc
  refine ⟨front, c, last, rfl, hfront, hordinary, hname, hlast, ?_⟩
  have hrelative : isAbsolute ⟨String.ofList last⟩ = false := by
    cases last with
    | nil => rfl
    | cons d last => simpa [isAbsolute] using hlast d List.mem_cons_self
  have hjoin := congrArg Path.text (hfront.join_ofComponents hordinary)
  rw [htext, hname, text_join_append _ hrelative (hname ▸ hordinary.isAbsolute)] at hjoin
  exact congrArg Path.mk ((String.append_left_inj ".js").1 hjoin.symm)

variable {as : List Component} {stem : String}

/-- `.js` and `..js` are names with nothing, and with a dot, in front of `.js`. -/
theorem ordinary_hidden : (Component.name ".js").Ordinary ∧ (Component.name "..js").Ordinary :=
  ⟨⟨by simp [Component.text], rfl⟩, ⟨by simp [Component.text], rfl⟩⟩

theorem Component.Ordinary.eq_of_text {c' : Component} (h : c.Ordinary) (h' : c'.Ordinary)
    (htext : c.text = c'.text) : c = c' := by
  have hsegment := h.ofSegment
  rw [htext, h'.ofSegment] at hsegment
  exact (Option.some.inj hsegment).symm

theorem components_normalize (p : Path) : p.normalize.components = p.place.components :=
  (Place.proper_place p).spellable_components.components_ofComponents

/-- Components that are spelled out are told by their spelling. -/
theorem Spellable.ofComponents_inj (h : Spellable cs) (h' : Spellable as) :
    ofComponents cs = ofComponents as ↔ cs = as := by
  refine ⟨fun heq => ?_, congrArg ofComponents⟩
  rw [← h.components_ofComponents, heq, h'.components_ofComponents]

theorem Spellable.join_eq_iff (h : Spellable as) (h' : Spellable (cs ++ [c])) {name : String}
    (hname : (Component.name name).Ordinary) :
    (ofComponents as).join ⟨name⟩ = ofComponents (cs ++ [c]) ↔ as = cs ∧ c = .name name := by
  have hjoin : (ofComponents as).join ⟨name⟩ = ofComponents (as ++ [.name name]) :=
    h.join_ofComponents (c := .name name) hname
  rw [hjoin, (h.append hname).ofComponents_inj h']
  constructor
  · intro heq
    obtain ⟨hcs, hc⟩ := List.append_inj' heq rfl
    exact ⟨hcs, (List.cons.inj hc).1.symm⟩
  · rintro ⟨rfl, rfl⟩
    rfl

/-- A segment that is no step adds nothing to the components of a directory. -/
theorem Spellable.components_join (h : Spellable cs) (hnil : cs ≠ []) {segment : List Char}
    (hsegment : ∀ d ∈ segment, (d == '/') = false) (hstep : Component.ofSegment segment = none) :
    ((ofComponents cs).join ⟨String.ofList segment⟩).components = cs := by
  have hsteps : steps ⟨String.ofList segment⟩ = [] := by
    rw [steps, segments, String.toList_ofList, splitOn_of_all hsegment]
    simp [hstep]
  have hrelative : isAbsolute ⟨String.ofList segment⟩ = false := by
    cases segment with
    | nil => rfl
    | cons d segment => simpa [isAbsolute] using hsegment d List.mem_cons_self
  rw [Path.components_join hrelative (h.text_ne_empty hnil), h.components_ofComponents, hsteps,
    List.append_nil]

theorem Component.ofSegment_eq_none {segment : List Char} (h : ofSegment segment = none) :
    segment = [] ∨ segment = ['.'] := by
  unfold ofSegment at h
  split at h
  · exact .inl rfl
  · exact .inr rfl
  · cases h
  · cases h

/-- A path without `.js` at its end has the components of another one: that is its spelling, or what
is left of its last name is no step. -/
theorem Spellable.eq_components_iff (h : Spellable cs) (h' : Spellable as) (hnil : as ≠ [])
    (htext : (ofComponents cs).text = stem ++ ".js") :
    as = (Path.mk stem).components ↔ (ofComponents as).text = stem ∨
      (ofComponents as).join ⟨".js"⟩ = ofComponents cs ∨
      (ofComponents as).join ⟨"..js"⟩ = ofComponents cs := by
  obtain ⟨front, c, last, rfl, hfront, hc, hname, hlast, hstem⟩ := h.exists_stem htext
  rw [h'.join_eq_iff h ordinary_hidden.1, h'.join_eq_iff h ordinary_hidden.2]
  constructor
  · intro has
    rw [hstem] at has
    cases hstep : Component.ofSegment last with
    | some c' =>
      -- something is left of the last name, and it is spelled as it was
      have htext' := Component.text_of_ofSegment hstep
      have hc' : c'.Ordinary := ⟨htext'.symm ▸ hlast, htext'.symm ▸ hstep⟩
      have hjoin := hfront.join_ofComponents hc'
      rw [← htext', String.ofList_toList, hjoin] at has hstem
      rw [(hfront.append hc').components_ofComponents] at has
      exact .inl (has ▸ congrArg Path.text hstem.symm)
    | none =>
      by_cases hempty : front = []
      · subst hempty
        rcases Component.ofSegment_eq_none hstep with rfl | rfl
        · exact absurd has hnil
        · have hhere : as = [.here] := has
          exact .inl (hhere ▸ congrArg Path.text hstem.symm)
      · rw [hfront.components_join hempty hlast hstep] at has
        rcases Component.ofSegment_eq_none hstep with rfl | rfl
        · exact .inr (.inl ⟨has, hc.eq_of_text ordinary_hidden.1 hname⟩)
        · exact .inr (.inr ⟨has, hc.eq_of_text ordinary_hidden.2 hname⟩)
  · rintro (hspelled | ⟨rfl, rfl⟩ | ⟨rfl, rfl⟩)
    · rw [← hspelled]
      exact h'.components_ofComponents.symm
    · have hnone : last = [] := by simpa [Component.text] using congrArg String.toList hname
      rw [hstem, h'.components_join hnil hlast (hnone ▸ rfl)]
    · have htoList : ['.'] ++ ".js".toList = last ++ ".js".toList := by
        simpa [Component.text] using congrArg String.toList hname
      have hdot : last = ['.'] := (List.append_cancel_right htoList).symm
      rw [hstem, h'.components_join hnil hlast (hdot ▸ rfl)]

/-- A path without `.js` at its end has the components of a normal form: it is that normal form, or it
leads to the file `.js` or `..js` of that directory. -/
theorem components_normalize_eq_iff {p q : Path} (h : q.normalize.text = stem ++ ".js") :
    p.normalize.components = (Path.mk stem).components ↔ p.normalize.text = stem ∨
      p.normalize.join ⟨".js"⟩ = q.normalize ∨ p.normalize.join ⟨"..js"⟩ = q.normalize := by
  rw [components_normalize]
  exact (Place.proper_place q).spellable_components.eq_components_iff
    (Place.proper_place p).spellable_components p.place.components_ne_nil h

end Path

end DateFields
