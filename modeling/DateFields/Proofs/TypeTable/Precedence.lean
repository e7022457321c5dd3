import DateFields.Proofs.TypeExpr.Precedence
import DateFields.Proofs.TypeTable.Canonical
import Mathlib.Data.List.Forall2
import Mathlib.Data.List.Nodup

/-!
# Types told by the text of expressions

Two expressions with the same text resolve to the same type, unless a union is written as a member
of an intersection without parentheses.  Then the text reads as something else.

* `Operator.combine` — forms combined: `TypeExpr.unionOf` and `TypeExpr.intersectionOf`;
* `Settled`, `WellFormed.allSettled` — combining does nothing to a single normal form;
* `Simple.normal?_pieces` — the normal form of an expression is that of its pieces, combined;
* `Simple.agree` — where nothing is mixed, the text tells the normal form;
* `typeOf?_eq_of_text_eq` — and so it tells the type;
* `typeOf?_ne_of_text_eq` — the text of a mixed expression does not.
-/

namespace DateFields

open Text

namespace TypeExpr

variable {op : Operator} {e e' f g m p : TypeExpr} {fs : List TypeExpr}

/-! ### Combined forms -/

/-- The members of a combination; any other expression is its only member. -/
def Operator.members : Operator → TypeExpr → List TypeExpr
  | .bar => unionMembers
  | .ampersand => intersectionMembers

/-- The flat combination of expressions in normal form. -/
def Operator.combine (op : Operator) (fs : List TypeExpr) : TypeExpr :=
  combined op.combination (distinctBy id (fs.flatMap op.members))

/-- Combining does nothing to the form, and its members are members of nothing else. -/
structure Settled (f : TypeExpr) : Prop where
  /-- The form alone is the combination of its members. -/
  combine : ∀ op : Operator, op.combine [f] = f
  /-- No member of a combination is such a combination. -/
  flat : ∀ op : Operator, ∀ m ∈ op.members f, op.members m = [m]

theorem Operator.members_combination (op : Operator) (fs : List TypeExpr) :
    op.members (op.combination fs) = fs := by
  cases op <;> rfl

theorem combined_of_length_ne_one {combination : List TypeExpr → TypeExpr} (h : fs.length ≠ 1) :
    combined combination fs = combination fs := by
  match fs, h with
  | [], _ => rfl
  | _ :: _ :: _, _ => rfl

theorem combine_of_members_eq (h : op.members f = [f]) : op.combine [f] = f := by
  rw [Operator.combine, List.flatMap_singleton, h]
  rfl

theorem combine_combination (hnodup : fs.Nodup) (hlength : fs.length ≠ 1) :
    op.combine [op.combination fs] = op.combination fs := by
  rw [Operator.combine, List.flatMap_singleton, op.members_combination,
    distinctBy_of_nodup id (by rwa [List.map_id]), combined_of_length_ne_one hlength]

theorem settled_of_members_eq (h : ∀ op : Operator, op.members f = [f]) : f.Settled := by
  refine ⟨fun op => combine_of_members_eq (h op), fun op m hm => ?_⟩
  rw [h op, List.mem_singleton] at hm
  rw [hm, h op]

/-- A flat combination is settled. -/
theorem settled_combination (hnodup : fs.Nodup) (hlength : fs.length ≠ 1)
    (hflat : ∀ m ∈ fs, op.members m = [m]) : (op.combination fs).Settled := by
  have hother : ∀ op', op' ≠ op → op'.members (op.combination fs) = [op.combination fs] := by
    intro op' hne
    cases op <;> cases op' <;> first | rfl | exact absurd rfl hne
  refine ⟨fun op' => ?_, fun op' m hm => ?_⟩ <;> by_cases hop : op' = op
  · rw [hop, combine_combination hnodup hlength]
  · exact combine_of_members_eq (hother op' hop)
  · subst hop
    rw [op'.members_combination] at hm
    exact hflat m hm
  · rw [hother op' hop, List.mem_singleton] at hm
    rw [hm, hother op' hop]

/-- The members of combined forms are those of the forms, each once. -/
theorem members_combine (h : ∀ f ∈ fs, f.Settled) :
    op.members (op.combine fs) = distinctBy id (fs.flatMap op.members) := by
  have hflat : ∀ m ∈ distinctBy id (fs.flatMap op.members), op.members m = [m] := by
    intro m hm
    obtain ⟨f, hf, hm⟩ := List.mem_flatMap.1 (mem_of_mem_distinctBy id hm)
    exact (h f hf).flat op m hm
  rw [Operator.combine]
  generalize distinctBy id (fs.flatMap op.members) = ms at hflat
  by_cases hone : ms.length = 1
  · obtain ⟨m, rfl⟩ := List.length_eq_one_iff.1 hone
    exact hflat m (List.mem_singleton_self m)
  · rw [combined_of_length_ne_one hone, op.members_combination]

/-- Forms may be combined in groups. -/
theorem combine_map_combine {groups : List (List TypeExpr)}
    (h : ∀ fs ∈ groups, ∀ f ∈ fs, f.Settled) :
    op.combine (groups.map op.combine) = op.combine groups.flatten := by
  rw [Operator.combine, Operator.combine, List.flatMap_map,
    List.flatMap_congr fun fs hfs => members_combine (h fs hfs), distinctBy_flatMap_distinctBy]
  rw [← List.flatMap_id', List.flatMap_assoc]

/-! ### Normal forms of pieces -/

section Names

variable {names : String → Option TypeExpr}

theorem normal?_combination (op : Operator) (members : List TypeExpr) :
    (op.combination members).normal? names =
      (normalAll? names members).bind (some <| op.combine ·) := by
  cases op <;> rw [Operator.combination, normal?] <;> rfl

/-- The normal forms of expressions, in order. -/
def NormalForms (names : String → Option TypeExpr) : List TypeExpr → List TypeExpr → Prop :=
  List.Forall₂ fun e f => normal? names e = some f

theorem normalForms_of_normalAll? {es : List TypeExpr} (h : normalAll? names es = some fs) :
    NormalForms names es fs := by
  induction es generalizing fs with
  | nil => cases h; exact .nil
  | cons e es ih =>
    obtain ⟨f, hf, hrest⟩ := Option.bind_eq_some_iff.1 h
    obtain ⟨gs, hgs, hcons⟩ := Option.bind_eq_some_iff.1 hrest
    cases hcons
    exact .cons hf (ih hgs)

theorem NormalForms.singleton (hf : e.normal? names = some f) : NormalForms names [e] [f] :=
  .cons hf .nil

/-- Every normal form is settled. -/
def AllSettled (names : String → Option TypeExpr) : Prop :=
  ∀ e f : TypeExpr, e.normal? names = some f → f.Settled

variable (hsettled : AllSettled names)

include hsettled

theorem NormalForms.settled {es : List TypeExpr} (h : NormalForms names es fs) :
    ∀ f ∈ fs, f.Settled := by
  induction h with
  | nil => simp
  | cons hf _ ih => exact List.forall_mem_cons.2 ⟨hsettled _ _ hf, ih⟩

/-- The normal forms of the pieces of several expressions come in groups. -/
theorem exists_groups {members gs : List TypeExpr} (hgs : NormalForms names members gs)
    (h : ∀ m ∈ members, ∀ g, m.normal? names = some g →
      ∃ fs, NormalForms names (m.pieces op) fs ∧ op.combine fs = g) :
    ∃ groups : List (List TypeExpr),
      NormalForms names (members.flatMap (pieces op)) groups.flatten ∧
      groups.map op.combine = gs ∧ ∀ fs ∈ groups, ∀ f ∈ fs, f.Settled := by
  induction hgs with
  | nil => exact ⟨[], .nil, rfl, by simp⟩
  | @cons m g members gs hg _ ih =>
    obtain ⟨hm, hmembers⟩ := List.forall_mem_cons.1 h
    obtain ⟨fs, hfs, rfl⟩ := hm g hg
    obtain ⟨groups, hgroups, rfl, hall⟩ := ih hmembers
    exact ⟨fs :: groups, List.rel_append hfs hgroups, rfl,
      List.forall_mem_cons.2 ⟨hfs.settled hsettled, hall⟩⟩

/-- The normal form of an expression is that of its pieces, combined. -/
theorem Simple.normal?_pieces (h : e.Simple) (op : Operator) (hf : e.normal? names = some f) :
    ∃ fs, NormalForms names (e.pieces op) fs ∧ op.combine fs = f := by
  have hself : ∀ {e f}, e.normal? names = some f →
      ∃ fs, NormalForms names [e] fs ∧ op.combine fs = f :=
    fun hf => ⟨_, .singleton hf, (hsettled _ _ hf).combine op⟩
  induction h generalizing f with
  | @combination op' members _ _ ih =>
    rw [pieces_combination]
    split
    · rename_i hsame
      rw [normal?_combination] at hf
      obtain ⟨gs, hgs, hcombine⟩ := Option.bind_eq_some_iff.1 hf
      have hgs := normalForms_of_normalAll? hgs
      -- in a combination of one member it makes no difference which operator would be written
      have hop : op.combine gs = op'.combine gs := by
        rcases hsame with hone | rfl
        · obtain ⟨g, rfl⟩ := List.length_eq_one_iff.1 (hgs.length_eq.symm.trans hone)
          have hg := hgs.settled hsettled g (List.mem_singleton_self g)
          rw [hg.combine, hg.combine]
        · rfl
      obtain ⟨groups, hgroups, rfl, hall⟩ :=
        exists_groups hsettled hgs fun m hm g hg => ih m hm hg
      cases hcombine
      exact ⟨groups.flatten, hgroups, by rw [← combine_map_combine hall, hop]⟩
    · exact hself hf
  | keyword | reference | array | parenthesized => exact hself hf

/-! ### Texts that are alike -/

omit hsettled

/-- If both expressions have normal forms, these are the same. -/
def Agree (names : String → Option TypeExpr) (e e' : TypeExpr) : Prop :=
  ∀ f f', e.normal? names = some f → e'.normal? names = some f' → f = f'

theorem NormalForms.eq_of_agree {ps ps' fs fs' : List TypeExpr} (hfs : NormalForms names ps fs)
    (hfs' : NormalForms names ps' fs') (hwritten : ps.map written = ps'.map written)
    (h : ∀ p ∈ ps, ∀ p' ∈ ps', p.written = p'.written → Agree names p p') : fs = fs' := by
  induction hfs generalizing ps' fs' with
  | nil =>
    obtain rfl := List.map_eq_nil_iff.1 hwritten.symm
    cases hfs'
    rfl
  | @cons p f ps fs hf _ ih =>
    cases hfs' with
    | nil => cases hwritten
    | @cons p' f' ps' fs' hf' hfs' =>
      obtain ⟨hp, hps⟩ := List.cons.inj hwritten
      rw [h p List.mem_cons_self p' List.mem_cons_self hp f f' hf hf',
        ih hfs' hps fun q hq q' hq' =>
          h q (List.mem_cons_of_mem p hq) q' (List.mem_cons_of_mem p' hq')]

/-- Expressions with the same text agree when their pieces do, as long as the operator is only
written between the pieces. -/
theorem agree_of_pieces (hsettled : AllSettled names) (op : Operator) (h : e.Simple)
    (h' : e'.Simple) (hclosed : ∀ p ∈ e.pieces op, Closed op.char p.written)
    (hclosed' : ∀ p ∈ e'.pieces op, Closed op.char p.written) (heq : e.written = e'.written)
    (hpieces : ∀ p ∈ e.pieces op, ∀ p' ∈ e'.pieces op, p.written = p'.written →
      Agree names p p') : Agree names e e' := by
  intro f f' hf hf'
  rw [h.written_eq op, h'.written_eq op] at heq
  have hwritten := intercalate_inj op.isSeparator (List.forall_mem_map.2 hclosed)
    (List.forall_mem_map.2 hclosed') (by simpa using h.pieces_ne_nil op)
    (by simpa using h'.pieces_ne_nil op) heq
  obtain ⟨fs, hfs, rfl⟩ := h.normal?_pieces hsettled op hf
  obtain ⟨fs', hfs', rfl⟩ := h'.normal?_pieces hsettled op hf'
  rw [hfs.eq_of_agree hfs' hwritten hpieces]

theorem normal?_operand (names : String → Option TypeExpr) (e : TypeExpr) :
    e.operand.normal? names = e.normal? names := by
  rw [operand]
  split
  · rw [normal?]
  · rfl

theorem normal?_of_name {name : String} (h : e = .keyword name ∨ e = .reference name []) :
    e.normal? names = names name := by
  rcases h with rfl | rfl
  · rw [normal?]
  · rw [normal?]
    simp

theorem Agree.array (h : Agree names e.operand e'.operand) :
    Agree names (.array e) (.array e') := by
  intro f f' hf hf'
  obtain ⟨g, hg, hgf⟩ := Option.bind_eq_some_iff.1 hf
  obtain ⟨g', hg', hgf'⟩ := Option.bind_eq_some_iff.1 hf'
  rw [← normal?_operand] at hg hg'
  cases hgf
  cases hgf'
  rw [h g g' hg hg']

theorem Agree.parenthesized (h : Agree names e e') :
    Agree names (.parenthesized e) (.parenthesized e') := by
  intro f f' hf hf'
  rw [normal?] at hf hf'
  exact h f f' hf hf'

/-- Expressions that are no combinations and have the same text agree when what stands inside of
them does. -/
theorem agree_of_not_isCombination (h : e.Simple) (h' : e'.Simple) (hmixed : e.mixed = false)
    (hmixed' : e'.mixed = false) (hno : e.isCombination = false) (hno' : e'.isCombination = false)
    (heq : e.written = e'.written)
    (hinner : ∀ {i i' : TypeExpr}, i.Simple → i'.Simple → i.mixed = false → i'.mixed = false →
      i.written.length < e.written.length → i.written = i'.written → Agree names i i') :
    Agree names e e' := by
  -- the last character tells a name, an array and parentheses apart
  have hname : ∀ {e : TypeExpr} {name : String} {c : Char}, isIdentifier name = true →
      (e = .keyword name ∨ e = .reference name []) → isNameChar c = false →
        e.written.getLast? ≠ some c := by
    intro e name c hident he hc
    rw [written_of_name he]
    exact getLast?_of_isIdentifier hident hc
  rcases h.cases_of_not_isCombination hno with
    ⟨name, hident, he⟩ | ⟨element, helement, rfl⟩ | ⟨inner, hi, rfl⟩ <;>
  rcases h'.cases_of_not_isCombination hno' with
    ⟨name', hident', he'⟩ | ⟨element', helement', rfl⟩ | ⟨inner', hi', rfl⟩
  · rw [written_of_name he, written_of_name he', String.toList_inj] at heq
    subst heq
    intro f f' hf hf'
    rw [normal?_of_name he] at hf
    rw [normal?_of_name he', hf] at hf'
    exact Option.some.inj hf'
  · exact absurd (heq ▸ getLast?_written_array element') (hname hident he (by decide))
  · exact absurd (heq ▸ getLast?_written_parenthesized inner') (hname hident he (by decide))
  · exact absurd (heq ▸ getLast?_written_array element) (hname hident' he' (by decide))
  · have hwritten := heq
    rw [written_array, written_array] at hwritten
    refine .array (hinner (simple_operand helement) (simple_operand helement') ?_ ?_ ?_
      (List.append_cancel_right hwritten))
    · rwa [mixed_operand]
    · rwa [mixed_operand]
    · rw [written_array, List.length_append]
      exact Nat.lt_add_of_pos_right (by decide)
  · have hlast := getLast?_written_array element
    rw [heq, getLast?_written_parenthesized] at hlast
    simp at hlast
  · exact absurd (heq ▸ getLast?_written_parenthesized inner) (hname hident' he' (by decide))
  · have hlast := getLast?_written_parenthesized inner
    rw [heq, getLast?_written_array] at hlast
    simp at hlast
  · have hwritten := heq
    rw [written_parenthesized, written_parenthesized] at hwritten
    refine .parenthesized (hinner hi hi' hmixed hmixed' ?_ (by simpa [enclosed] using hwritten))
    rw [written_parenthesized, length_enclosed]
    omega

/-- Where nothing is mixed, expressions with the same text agree. -/
theorem Simple.agree (hsettled : AllSettled names) (h : e.Simple) (h' : e'.Simple)
    (hmixed : e.mixed = false) (hmixed' : e'.mixed = false) (heq : e.written = e'.written) :
    Agree names e e' := by
  induction hn : e.written.length using Nat.strongRecOn generalizing e e' with
  | _ n ih =>
    subst hn
    have hbar := h.piece_bar hmixed
    have hbar' := h'.piece_bar hmixed'
    refine agree_of_pieces hsettled .bar h h'
      (fun p hp => (hbar p hp).1.closed_bar (hbar p hp).2.1 (hbar p hp).2.2)
      (fun p hp => (hbar' p hp).1.closed_bar (hbar' p hp).2.1 (hbar' p hp).2.2)
      heq fun p hp p' hp' hpp => ?_
    obtain ⟨hsimple, hpmixed, hbarred⟩ := hbar p hp
    obtain ⟨hsimple', hpmixed', hbarred'⟩ := hbar' p' hp'
    have hamp := hsimple.piece_ampersand hpmixed hbarred
    have hamp' := hsimple'.piece_ampersand hpmixed' hbarred'
    refine agree_of_pieces hsettled .ampersand hsimple hsimple'
      (fun q hq => (hamp q hq).1.closed.2 (hamp q hq).2.2 .ampersand)
      (fun q hq => (hamp' q hq).1.closed.2 (hamp' q hq).2.2 .ampersand)
      hpp fun q hq q' hq' hqq => ?_
    obtain ⟨hq₁, hq₂, hq₃⟩ := hamp q hq
    obtain ⟨hq₁', hq₂', hq₃'⟩ := hamp' q' hq'
    have hlength : q.written.length ≤ e.written.length :=
      Nat.le_trans (hsimple.length_le_of_mem_pieces hq) (h.length_le_of_mem_pieces hp)
    exact agree_of_not_isCombination hq₁ hq₁' hq₂ hq₂' hq₃ hq₃' hqq
      fun hi hi' hm hm' hlt heq => ih _ (Nat.lt_of_lt_of_le hlt hlength) hi hi' hm hm' heq rfl

end Names

end TypeExpr

namespace TypeTable

variable {t u : TypeTable}

/-! ### Types -/

/-- What a type stands for is settled. -/
theorem WellFormed.settled_form (ht : t.WellFormed) {id : TypeId} (hid : id < t.entries.length) :
    (t.form id).Settled := by
  obtain ⟨e, he⟩ := exists_entryAt? hid
  have hflat := ht.flat he
  have hnodup : e.parts.Nodup → (e.parts.map t.form).Nodup := fun h =>
    List.Nodup.map_on (fun a ha b hb => ht.form_inj (Nat.lt_trans (ht.parts_lt he a ha) hid)
      (Nat.lt_trans (ht.parts_lt he b hb) hid)) h
  rw [ht.form_of_entry he]
  cases e with
  | union ms =>
    show (TypeExpr.Operator.bar.combination _).Settled
    refine TypeExpr.settled_combination (hnodup hflat.1)
      (by simpa using hflat.2.1) (List.forall_mem_map.2 fun m hm => ?_)
    show (t.form m).unionMembers = [t.form m]
    rw [ht.unionMembers_form, unionMembers_of_isUnion (hflat.2.2 m hm), List.map_singleton]
  | intersection ms =>
    show (TypeExpr.Operator.ampersand.combination _).Settled
    refine TypeExpr.settled_combination (hnodup hflat.1)
      (by simpa using hflat.2.1) (List.forall_mem_map.2 fun m hm => ?_)
    show (t.form m).intersectionMembers = [t.form m]
    rw [ht.intersectionMembers_form, intersectionMembers_of_isIntersection (hflat.2.2 m hm),
      List.map_singleton]
  | primitive | object | literal | array =>
    exact TypeExpr.settled_of_members_eq fun op => by cases op <;> rfl

/-- Every normal form with the names of a table is settled. -/
theorem WellFormed.allSettled (ht : t.WellFormed) : TypeExpr.AllSettled t.nameForm? := by
  intro e f hf
  have hrel := (ensures_resolve e ht).result
  rw [hf] at hrel
  generalize ((resolve e).run.run t).1 = r at hrel
  cases hrel with
  | some hform =>
    rw [← hform.form]
    exact (ensures_resolve e ht).wellFormed.settled_form hform.lt

/-- Types that an earlier and a later question have for answers stand for normal forms of which they
are the only types. -/
theorem exists_forms_of_typeOf? (before between : List Operation)
    (hbetween : ∀ d, .declare d ∈ between → d.name ∉ primitiveNames) {e e' : TypeExpr} {i j : TypeId}
    (hi : (ofOperations before).typeOf? e = some i)
    (hj : (ofOperations (before ++ .resolve e :: between)).typeOf? e' = some j) :
    ∃ names f g, TypeExpr.AllSettled names ∧ e.normal? names = some f ∧
      e'.normal? names = some g ∧ (i = j ↔ f = g) := by
  have ht : (ofOperations before).WellFormed := wellFormed_ofOperations before
  have hu : (ofOperations (before ++ .resolve e :: between)).WellFormed :=
    wellFormed_ofOperations _
  have hk : (ofOperations before).KnownPrimitives := knownPrimitives_ofOperations before
  have hfold : ofOperations (before ++ .resolve e :: between) =
      between.foldl Operation.apply ((resolve e).run.run (ofOperations before)).2 :=
    ofOperations_append before (.resolve e :: between)
  generalize ofOperations before = t at ht hk hi hfold
  generalize ofOperations (before ++ .resolve e :: between) = u at hu hj hfold
  have hkeeps : ((resolve e).run.run t).2.Keeps u := by
    rw [hfold]
    exact keeps_foldl (ht.apply (.resolve e)) (hk.apply (.resolve e)) hbetween
  obtain ⟨f, hf, hi⟩ := ht.hasForm_of_typeOf? hi
  obtain ⟨g, hg, hj⟩ := hu.hasForm_of_typeOf? hj
  -- both types are looked at in the table that the later question leaves
  have hi := ((grows_resolve e' u).keeps hu).hasForm (hkeeps.hasForm hi)
  have hnames := (((grows_resolve e t).keeps ht).trans hkeeps).names
  exact ⟨u.nameForm?, f, g, hu.allSettled, TypeExpr.normal?_mono hnames hf, hg,
    hi.eq_iff (hu.apply (.resolve e')) hj⟩

/-- Simple expressions with the same text resolve to the same type, also when other types are asked
for and declared in between, as long as no declaration has the name of a primitive type and neither
expression has a union among several members of an intersection without parentheses. -/
theorem typeOf?_eq_of_text_eq (before between : List Operation)
    (hbetween : ∀ d, .declare d ∈ between → d.name ∉ primitiveNames) {e e' : TypeExpr}
    (he : e.Simple) (he' : e'.Simple) (hmixed : e.mixed = false) (hmixed' : e'.mixed = false)
    (htext : e.text = e'.text) (i j : TypeId) (hi : (ofOperations before).typeOf? e = some i)
    (hj : (ofOperations (before ++ .resolve e :: between)).typeOf? e' = some j) : i = j := by
  obtain ⟨names, f, g, hsettled, hf, hg, hij⟩ :=
    exists_forms_of_typeOf? before between hbetween hi hj
  exact hij.2 (he.agree hsettled he' hmixed hmixed' (congrArg String.toList htext) f g hf hg)

/-- `(Date | null)[] & object | string` is one type, with the parentheses written out or not and the
combinations nested or not. -/
theorem typeOf?_eq_of_text_eq_nested :
    let date : TypeExpr := .union [.reference "Date" [], .keyword "null"]
    let nested : TypeExpr := .union [.union [.intersection [.array date, .keyword "object"]],
      .union [.keyword "string"]]
    let flat : TypeExpr := .union [.intersection [.array (.parenthesized date),
      .intersection [.keyword "object"]], .reference "string" []]
    let between : List Operation := [.declare ⟨"Event", .ofInterface, [], []⟩]
    let u := ofOperations (.resolve nested :: between)
    (∀ d, .declare d ∈ between → d.name ∉ primitiveNames) ∧ nested.Simple ∧ flat.Simple ∧
    nested.mixed = false ∧ flat.mixed = false ∧ nested.text = flat.text ∧
    new.typeOf? nested = some 16 ∧ ∃ j, u.typeOf? flat = some j ∧ 16 = j := by
  intro date nested flat between u
  have hbetween : ∀ d, .declare d ∈ between → d.name ∉ primitiveNames := by
    intro d hd
    obtain rfl : d = ⟨"Event", .ofInterface, [], []⟩ := by simpa [between] using hd
    decide
  have hkeyword : ∀ name ∈ primitiveNames, (TypeExpr.keyword name).Simple := fun name hname =>
    .keyword (TypeExpr.isIdentifier_of_mem_primitiveNames name hname)
  have hdate : date.Simple := .combination .bar (by simp)
    (by simpa using ⟨.reference (by decide), hkeyword "null" (by decide)⟩)
  have hobject : (TypeExpr.keyword "object").Simple := hkeyword _ (by decide)
  have hnested : nested.Simple := .combination .bar (by simp) (by
    simpa using ⟨.combination .bar (by simp) (by
      simpa using .combination .ampersand (by simp) (by simpa using ⟨.array hdate, hobject⟩)),
      .combination .bar (by simp) (by simpa using hkeyword "string" (by decide))⟩)
  have hflat : flat.Simple := .combination .bar (by simp) (by
    simpa using ⟨.combination .ampersand (by simp) (by
      simpa using ⟨.array (.parenthesized hdate),
        .combination .ampersand (by simp) (by simpa using hobject)⟩), .reference (by decide)⟩)
  have htext : nested.text = flat.text := by decide +kernel
  have hi : new.typeOf? nested = some 16 := by decide +kernel
  have hj : u.typeOf? flat = some 16 := by decide +kernel
  exact ⟨hbetween, hnested, hflat, rfl, rfl, htext, hi, 16, hj,
    typeOf?_eq_of_text_eq [] between hbetween hnested hflat rfl rfl htext 16 16 hi hj⟩

/-- `string & number | boolean` is the text of two expressions that resolve to different types.  The
type of the one with the union inside is spelled `string & (number | boolean)`. -/
theorem typeOf?_ne_of_text_eq :
    let inside : TypeExpr := .intersection [.keyword "string",
      .union [.keyword "number", .keyword "boolean"]]
    let outside : TypeExpr := .union [.intersection [.keyword "string", .keyword "number"],
      .keyword "boolean"]
    let t := ofOperations [.resolve inside]
    inside.Simple ∧ outside.Simple ∧ inside.text = "string & number | boolean" ∧
    outside.text = inside.text ∧ new.typeOf? inside = some 14 ∧ t.typeOf? outside = some 16 ∧
    inside.mixed = true ∧ t.typeText 14 = "string & (number | boolean)" := by
  intro inside outside t
  have hkeyword : ∀ name ∈ primitiveNames, (TypeExpr.keyword name).Simple := fun name hname =>
    .keyword (TypeExpr.isIdentifier_of_mem_primitiveNames name hname)
  have hinside : inside.Simple := .combination .ampersand (by simp) (by
    simpa using ⟨hkeyword "string" (by decide), .combination .bar (by simp) (by
      simpa using ⟨hkeyword "number" (by decide), hkeyword "boolean" (by decide)⟩)⟩)
  have houtside : outside.Simple := .combination .bar (by simp) (by
    simpa using ⟨.combination .ampersand (by simp) (by
      simpa using ⟨hkeyword "string" (by decide), hkeyword "number" (by decide)⟩),
      hkeyword "boolean" (by decide)⟩)
  exact ⟨hinside, houtside, by decide +kernel, by decide +kernel, by decide +kernel,
    by decide +kernel, rfl, by decide +kernel⟩

end TypeTable

end DateFields
