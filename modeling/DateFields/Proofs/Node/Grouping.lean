import DateFields.Proofs.Node.Seams

/-!
# Expressions told by their text

Two expressions with the same text are the same, up to the numbers of calls, as long as parentheses
stand wherever they are needed.  The printer leaves them out around `await` and unary operators of
which an element is taken or which are called, and around what is called in the class of a `new`.

* `Told` — an expression is known from a text that begins with it;
* `told_spine` — an operand is, if what stands between its parentheses and brackets is;
* `Clear.told` — where everything is plain and grouped, every expression is;
* `text_eq_iff` — and so its text tells it from others;
* `text_elementOfAwaited` — where something is not grouped, it may not.
-/

namespace DateFields.Node

open Text

/-! ### Told expressions -/

variable {marks cs ds : List Char} {c : Char} (depth : Nat)

/-- The expression is known, up to the numbers of calls, from a text that begins with it. -/
def Told (n : Node) : Prop :=
  ∀ m : Node, m.Clear → ∀ cs ds, Ends outerMarks cs → Ends outerMarks ds →
    n.written depth ++ cs = m.written depth ++ ds → n.unnumbered = m.unnumbered ∧ cs = ds

variable {depth} {ns ms : List Node}

/-- The characters of the arguments behind the first one. -/
def moreWritten (depth : Nat) (ns : List Node) : List Char :=
  ns.flatMap fun n => ',' :: ' ' :: n.written depth

theorem commas_cons (n : Node) (ns : List Node) :
    (commas (texts depth (n :: ns))).toList = n.written depth ++ moreWritten depth ns := by
  induction ns generalizing n with
  | nil => simp [commas, texts, moreWritten, written]
  | cons m ns ih =>
    have hcommas : commas (texts depth (n :: m :: ns)) =
        n.text depth ++ ", " ++ commas (texts depth (m :: ns)) := String.intercalate_cons_cons
    rw [hcommas, String.toList_append, String.toList_append, ih]
    simp [moreWritten, written]

theorem ends_more : Ends outerMarks (moreWritten depth ns ++ ')' :: cs) := by
  cases ns with
  | nil => exact .close (by decide) cs
  | cons n ns => exact .close (by decide) _

theorem told_more (hns : ∀ n ∈ ns, Told depth n) (hms : ∀ m ∈ ms, m.Clear)
    (h : moreWritten depth ns ++ ')' :: cs = moreWritten depth ms ++ ')' :: ds) :
    ns.map unnumbered = ms.map unnumbered ∧ cs = ds := by
  induction ns generalizing ms with
  | nil =>
    cases ms with
    | nil => exact ⟨rfl, by simpa [moreWritten] using h⟩
    | cons m ms => simp [moreWritten] at h
  | cons n ns ih =>
    cases ms with
    | nil => simp [moreWritten] at h
    | cons m ms =>
      obtain ⟨hn, hns⟩ := List.forall_mem_cons.1 hns
      obtain ⟨hm, hms⟩ := List.forall_mem_cons.1 hms
      have hcons : n.written depth ++ (moreWritten depth ns ++ ')' :: cs) =
          m.written depth ++ (moreWritten depth ms ++ ')' :: ds) := by
        simpa [moreWritten] using h
      obtain ⟨hfirst, hrest⟩ := hn m hm _ _ ends_more ends_more hcons
      obtain ⟨hothers, hbehind⟩ := ih hns hms hrest
      exact ⟨by rw [List.map_cons, List.map_cons, hfirst, hothers], hbehind⟩

theorem Clear.close_ne {n : Node} (h : n.Clear) : ')' :: cs ≠ n.written depth ++ ds := by
  intro heq
  obtain ⟨c, rest, hc, hopens⟩ := (h.opening depth).append ds
  rw [← heq] at hc
  cases hc
  revert hopens
  decide

theorem told_args (hns : ∀ n ∈ ns, Told depth n) (hns' : ∀ n ∈ ns, n.Clear)
    (hms : ∀ m ∈ ms, m.Clear)
    (h : (Suffix.args ns).written depth ++ cs = (Suffix.args ms).written depth ++ ds) :
    ns.map unnumbered = ms.map unnumbered ∧ cs = ds := by
  have hnone : (commas (texts depth [])).toList = [] := by simp [commas, texts]
  have h : (commas (texts depth ns)).toList ++ ')' :: cs =
      (commas (texts depth ms)).toList ++ ')' :: ds := by
    simpa [Suffix.written] using h
  cases ns with
  | nil =>
    rw [hnone, List.nil_append] at h
    cases ms with
    | nil =>
      rw [hnone, List.nil_append] at h
      exact ⟨rfl, (List.cons.inj h).2⟩
    | cons m ms =>
      rw [commas_cons, List.append_assoc] at h
      exact absurd h (hms m List.mem_cons_self).close_ne
  | cons n ns =>
    cases ms with
    | nil =>
      rw [hnone, commas_cons, List.nil_append, List.append_assoc] at h
      exact absurd h.symm (hns' n List.mem_cons_self).close_ne
    | cons m ms =>
      obtain ⟨hn, hns⟩ := List.forall_mem_cons.1 hns
      obtain ⟨hm, hms⟩ := List.forall_mem_cons.1 hms
      rw [commas_cons, commas_cons, List.append_assoc, List.append_assoc] at h
      obtain ⟨hfirst, hrest⟩ := hn m hm _ _ ends_more ends_more h
      obtain ⟨hothers, hbehind⟩ := told_more hns hms hrest
      exact ⟨by rw [List.map_cons, List.map_cons, hfirst, hothers], hbehind⟩

/-! ### Accesses -/

theorem Suffix.exists_written (x : Suffix) (depth : Nat) :
    ∃ c cs, x.written depth = c :: cs ∧ c ∈ ['.', '[', '('] := by
  cases x with
  | access name => exact ⟨'.', _, rfl, by decide⟩
  | index i => exact ⟨'[', _, rfl, by decide⟩
  | args es => exact ⟨'(', _, rfl, by decide⟩

/-- Behind a name stand accesses and what ends an expression, and neither goes on with the name. -/
theorem endsName_suffixes (xs : List Suffix) (h : Ends marks cs) :
    ∀ c ∈ (xs.flatMap (Suffix.written depth) ++ cs).head?, endsName c = true := by
  cases xs with
  | nil => exact h.endsName
  | cons x xs =>
    obtain ⟨c, rest, hwritten, hc⟩ := x.exists_written depth
    have hall : ['.', '[', '('].all endsName = true := by decide
    simpa [hwritten] using List.all_eq_true.1 hall c hc

/-- The expressions between brackets. -/
def Suffix.nodes : Suffix → List Node
  | .access _ => []
  | .index i => [i]
  | .args es => es

theorem told_suffix {x y : Suffix} (hx : x.Clear) (hy : y.Clear)
    (htold : ∀ e ∈ x.nodes, Told depth e) (hc : ∀ c ∈ cs.head?, endsName c = true)
    (hd : ∀ c ∈ ds.head?, endsName c = true)
    (h : x.written depth ++ cs = y.written depth ++ ds) : x.unnumbered = y.unnumbered ∧ cs = ds := by
  cases x with
  | access name =>
    cases y with
    | access name' =>
      obtain ⟨hname, hrest⟩ := append_inj_of_cut hx hy hc hd (List.cons.inj h).2
      exact ⟨by rw [String.toList_inj.1 hname], hrest⟩
    | index | args => simp [Suffix.written] at h
  | index i =>
    cases y with
    | index j =>
      have h : i.written depth ++ ']' :: cs = j.written depth ++ ']' :: ds := by
        simpa [Suffix.written] using h
      obtain ⟨hi, hrest⟩ := htold i (List.mem_singleton_self i) j hy _ _
        (.close (by decide) _) (.close (by decide) _) h
      exact ⟨congrArg Suffix.index hi, (List.cons.inj hrest).2⟩
    | access | args => simp [Suffix.written] at h
  | args es =>
    cases y with
    | args fs =>
      obtain ⟨hes, hrest⟩ := told_args htold hx hy h
      exact ⟨congrArg Suffix.args hes, hrest⟩
    | access | index => simp [Suffix.written] at h

theorem told_suffixes {xs ys : List Suffix} (hxs : ∀ x ∈ xs, x.Clear) (hys : ∀ y ∈ ys, y.Clear)
    (htold : ∀ x ∈ xs, ∀ e ∈ x.nodes, Told depth e) (hc : Ends marks cs) (hd : Ends marks ds)
    (h : xs.flatMap (Suffix.written depth) ++ cs = ys.flatMap (Suffix.written depth) ++ ds) :
    xs.map Suffix.unnumbered = ys.map Suffix.unnumbered ∧ cs = ds := by
  have hend : ∀ {y : Suffix} {as bs : List Char}, Ends marks as → as ≠ y.written depth ++ bs := by
    intro y as bs has heq
    obtain ⟨c, rest, hwritten, hc⟩ := y.exists_written depth
    exact has.not_access c (by simp [heq, hwritten]) hc
  induction xs generalizing ys with
  | nil =>
    cases ys with
    | nil => exact ⟨rfl, h⟩
    | cons y ys =>
      rw [List.flatMap_cons, List.append_assoc] at h
      exact absurd h (hend hc)
  | cons x xs ih =>
    rw [List.flatMap_cons, List.append_assoc] at h
    cases ys with
    | nil => exact absurd h.symm (hend hd)
    | cons y ys =>
      rw [List.flatMap_cons, List.append_assoc] at h
      obtain ⟨hx, hxs⟩ := List.forall_mem_cons.1 hxs
      obtain ⟨hy, hys⟩ := List.forall_mem_cons.1 hys
      obtain ⟨htold, htolds⟩ := List.forall_mem_cons.1 htold
      obtain ⟨hfirst, hrest⟩ :=
        told_suffix hx hy htold (endsName_suffixes xs hc) (endsName_suffixes ys hd) h
      obtain ⟨hothers, hbehind⟩ := ih hxs hys htolds hrest
      exact ⟨by rw [List.map_cons, List.map_cons, hfirst, hothers], hbehind⟩

/-! ### Operators and heads -/

theorem written_new : Prefix.new.written = ['n', 'e', 'w', ' '] := rfl

theorem written_awaiting : Prefix.await.written = ['a', 'w', 'a', 'i', 't', ' '] := rfl

theorem written_not : (Prefix.operator "!").written = ['!'] := by decide

/-- A head is no operator, whatever stands behind it. -/
theorem Spine.Clear.head_ne {s : Spine} (h : s.Clear) {p : Prefix} (hp : p.Clear)
    (xs : List Suffix) (hc : Ends operandMarks cs) (hd : Opening ds) :
    enclosedIf depth s.head.isLooseObject s.head ++ (xs.flatMap (Suffix.written depth) ++ cs) ≠
      p.written ++ ds := by
  intro heq
  rcases h.head with ⟨name, hname, hhead⟩ | ⟨hloose, -⟩
  · rw [hhead, enclosedIf_identifier] at heq
    -- a name that is read up to a blank would have an expression behind the blank
    have hword : ∀ word : List Char, word.all (!endsName ·) = true →
        name.toList ++ (xs.flatMap (Suffix.written depth) ++ cs) ≠ word ++ ' ' :: ds := by
      intro word hw heq
      have hw : ∀ c ∈ word, endsName c = false := by simpa using hw
      obtain ⟨-, hbehind⟩ := append_inj_of_cut (endsName_eq_false_of_isIdentifier hname) hw
        (endsName_suffixes xs hc) (by simp; decide) heq
      cases xs with
      | nil =>
        obtain ⟨c, ds, rfl, hopens⟩ := hd
        rw [List.flatMap_nil, List.nil_append] at hbehind
        rw [hbehind] at hc
        rw [hc.not_opens] at hopens
        cases hopens
      | cons x xs =>
        obtain ⟨c, rest, hx, hmem⟩ := x.exists_written depth
        rw [List.flatMap_cons, hx] at hbehind
        obtain ⟨rfl, -⟩ := List.cons.inj hbehind
        revert hmem
        decide
    rcases hp with rfl | rfl | rfl
    · exact hword ['n', 'e', 'w'] (by decide) heq
    · exact hword ['a', 'w', 'a', 'i', 't'] (by decide) heq
    · obtain ⟨c, rest, hc, hnamed⟩ := exists_of_isIdentifier hname
      rw [hc, written_not] at heq
      obtain ⟨rfl, -⟩ := List.cons.inj heq
      revert hnamed
      decide
  · rw [hloose, enclosedIf_true] at heq
    rcases hp with rfl | rfl | rfl <;> simp [written_new, written_awaiting, written_not] at heq

/-- Operators are told from each other and from what is none. -/
theorem told_prefixes {ps qs : List Prefix} (hps : ∀ p ∈ ps, p.Clear) (hqs : ∀ q ∈ qs, q.Clear)
    (hc : Opening cs) (hd : Opening ds)
    (hcs : ∀ p : Prefix, p.Clear → ∀ as, Opening as → cs ≠ p.written ++ as)
    (hds : ∀ p : Prefix, p.Clear → ∀ as, Opening as → ds ≠ p.written ++ as)
    (h : ps.flatMap Prefix.written ++ cs = qs.flatMap Prefix.written ++ ds) : ps = qs ∧ cs = ds := by
  induction ps generalizing qs with
  | nil =>
    cases qs with
    | nil => exact ⟨rfl, h⟩
    | cons q qs =>
      obtain ⟨hq, hqs⟩ := List.forall_mem_cons.1 hqs
      rw [List.flatMap_cons, List.append_assoc] at h
      exact absurd h (hcs q hq _ (opening_prefixes hqs hd))
  | cons p ps ih =>
    obtain ⟨hp, hps⟩ := List.forall_mem_cons.1 hps
    rw [List.flatMap_cons, List.append_assoc] at h
    cases qs with
    | nil => exact absurd h.symm (hds p hp _ (opening_prefixes hps hc))
    | cons q qs =>
      obtain ⟨hq, hqs⟩ := List.forall_mem_cons.1 hqs
      rw [List.flatMap_cons, List.append_assoc] at h
      have hpq : p = q := by
        rcases hp with rfl | rfl | rfl <;> rcases hq with rfl | rfl | rfl <;>
          simp_all [written_new, written_awaiting, written_not]
      rw [hpq] at h ⊢
      obtain ⟨hrest, hbehind⟩ := ih hps hqs (List.append_cancel_left h)
      exact ⟨congrArg (q :: ·) hrest, hbehind⟩

theorem told_head {s t : Spine} (hs : s.Clear) (ht : t.Clear)
    (htold : s.head.isLooseObject = true → Told depth s.head)
    (hc : ∀ c ∈ cs.head?, endsName c = true) (hd : ∀ c ∈ ds.head?, endsName c = true)
    (h : enclosedIf depth s.head.isLooseObject s.head ++ cs =
      enclosedIf depth t.head.isLooseObject t.head ++ ds) :
    s.head.unnumbered = t.head.unnumbered ∧ cs = ds := by
  have hname_ne : ∀ {name : String} {as bs : List Char}, isIdentifier name = true →
      name.toList ++ as ≠ '(' :: bs := by
    intro name as bs hname heq
    obtain ⟨c, rest, hc, hnamed⟩ := exists_of_isIdentifier hname
    rw [hc] at heq
    obtain ⟨rfl, -⟩ := List.cons.inj heq
    revert hnamed
    decide
  rcases hs.head with ⟨name, hname, hhead⟩ | ⟨hloose, -⟩ <;>
    rcases ht.head with ⟨name', hname', hhead'⟩ | ⟨hloose', ht'⟩
  · rw [hhead, hhead', enclosedIf_identifier, enclosedIf_identifier] at h
    obtain ⟨hnames, hrest⟩ := append_inj_of_cut (endsName_eq_false_of_isIdentifier hname)
      (endsName_eq_false_of_isIdentifier hname') hc hd h
    exact ⟨by rw [hhead, hhead', String.toList_inj.1 hnames], hrest⟩
  · rw [hhead, hloose', enclosedIf_identifier, enclosedIf_true] at h
    exact absurd h (hname_ne hname)
  · rw [hhead', hloose, enclosedIf_identifier, enclosedIf_true] at h
    exact absurd h.symm (hname_ne hname')
  · rw [hloose, hloose', enclosedIf_true, enclosedIf_true] at h
    have hinner : s.head.written depth ++ ')' :: cs = t.head.written depth ++ ')' :: ds := by
      simpa using h
    obtain ⟨hheads, hrest⟩ := htold hloose t.head ht' _ _ (.close (by decide) _)
      (.close (by decide) _) hinner
    exact ⟨hheads, (List.cons.inj hrest).2⟩

/-- The expressions between parentheses and brackets. -/
def Spine.parts (s : Spine) : List Node :=
  (if s.head.isLooseObject then [s.head] else []) ++ s.suffixes.flatMap Suffix.nodes

/-- An operand is known from a text that begins with it, if what stands between parentheses and
brackets is. -/
theorem told_spine {s t : Spine} (hs : s.Clear) (ht : t.Clear)
    (htold : ∀ e ∈ s.parts, Told depth e) (hc : Ends operandMarks cs) (hd : Ends operandMarks ds)
    (h : s.written depth ++ cs = t.written depth ++ ds) :
    s.unnumbered = t.unnumbered ∧ cs = ds := by
  rw [Spine.written, Spine.written, List.append_assoc, List.append_assoc, List.append_assoc,
    List.append_assoc] at h
  obtain ⟨hprefixes, h⟩ := told_prefixes hs.prefixes ht.prefixes ((hs.opening_head depth).append _)
    ((ht.opening_head depth).append _) (fun p hp as has => hs.head_ne hp _ hc has)
    (fun p hp as has => ht.head_ne hp _ hd has) h
  obtain ⟨hhead, h⟩ := told_head hs ht
    (fun hloose => htold _ (List.mem_append_left _ (by simp [hloose])))
    (endsName_suffixes _ hc) (endsName_suffixes _ hd) h
  obtain ⟨hsuffixes, h⟩ := told_suffixes (fun x hx => hs.suffixes x (List.mem_reverse.1 hx))
    (fun x hx => ht.suffixes x (List.mem_reverse.1 hx))
    (fun x hx e he => htold e (List.mem_append_right _
      (List.mem_flatMap.2 ⟨x, List.mem_reverse.1 hx, he⟩))) hc hd h
  rw [List.map_reverse, List.map_reverse, List.reverse_inj] at hsuffixes
  exact ⟨by rw [Spine.unnumbered, Spine.unnumbered, hprefixes, hhead, hsuffixes], h⟩

/-! ### Every expression is told -/

theorem Clear.allGrouped {n : Node} (h : n.Clear) : n.AllGrouped :=
  fun m hm k hk => (h m hm k hk).2

/-- Expressions with the same spine are the same. -/
theorem Clear.unnumbered_eq {n m : Node} (hn : n.Clear) (hm : m.Clear)
    (h : n.spine.unnumbered = m.spine.unnumbered) : n.unnumbered = m.unnumbered := by
  rw [← assemble_spine hn.allGrouped, h, assemble_spine hm.allGrouped]

theorem Ends.mem_of_blank (h : Ends marks (' ' :: c :: cs)) : c ∈ marks := by
  cases h with
  | close h => simp at h
  | blank h => exact h

/-- A plain expression is an operand, a conditional or a sum. -/
theorem Clear.shape {n : Node} (h : n.Clear) (depth : Nat) :
    (n.isLoose = false ∧ n.lead = n ∧ n.tailWritten depth = []) ∨
      (∃ c a b, n = .conditional c a b) ∨ ∃ l r, n = .binary "+" l r := by
  have hplain := h.head.1
  cases n with
  | conditional c a b => exact .inr (.inl ⟨c, a, b, rfl⟩)
  | binary o l r => exact .inr (.inr ⟨l, r, by simpa [isPlain] using hplain⟩)
  | arrow => cases hplain
  | _ => exact .inl ⟨rfl, rfl, rfl⟩

theorem Clear.ends_tail {n : Node} (h : n.Clear) (hc : Ends outerMarks cs) :
    Ends operandMarks (n.tailWritten depth ++ cs) := by
  rcases h.shape depth with ⟨-, -, htail⟩ | ⟨c, a, b, rfl⟩ | ⟨l, r, rfl⟩
  · rw [htail]
    exact hc.operand
  · exact .blank (by decide) _
  · exact .blank (by decide) _

/-- An expression is told if the operand it begins with is, and what stands behind that. -/
theorem told_of_lead {n : Node} (h : n.Clear) (hlead : ∀ e ∈ n.lead.spine.parts, Told depth e)
    (hrest : ∀ c ∈ n.children, (∀ e ∈ c.spine.parts, Told depth e) ∧ Told depth c) :
    Told depth n := by
  intro m hm cs ds hc hd heq
  rw [h.written_eq, hm.written_eq, List.append_assoc, List.append_assoc] at heq
  obtain ⟨hspine, htail⟩ := told_spine h.lead.spine hm.lead.spine hlead (h.ends_tail hc)
    (hm.ends_tail hd) heq
  have hleads : n.lead.unnumbered = m.lead.unnumbered := h.lead.unnumbered_eq hm.lead hspine
  have hmark : ∀ {c : Char} {as bs : List Char}, Ends outerMarks as → as = ' ' :: c :: bs →
      c = ':' := fun has heq => by
    rw [heq] at has
    exact List.mem_singleton.1 has.mem_of_blank
  rcases h.shape depth with ⟨-, hn, hnone⟩ | ⟨c, a, b, rfl⟩ | ⟨l, r, rfl⟩ <;>
    rcases hm.shape depth with ⟨-, hm', hnone'⟩ | ⟨c', a', b', rfl⟩ | ⟨l', r', rfl⟩
  · rw [hnone, hnone'] at htail
    rw [hn, hm'] at hleads
    exact ⟨hleads, htail⟩
  · rw [hnone] at htail
    cases hmark hc htail
  · rw [hnone] at htail
    cases hmark hc htail
  · rw [hnone'] at htail
    cases hmark hd htail.symm
  · have htail : a.written depth ++ ' ' :: ':' :: ' ' :: (b.written depth ++ cs) =
        a'.written depth ++ ' ' :: ':' :: ' ' :: (b'.written depth ++ ds) := by
      simpa [tailWritten] using htail
    obtain ⟨ha, hbehind⟩ := (hrest a (by simp [children, slots, Slot.fixed])).2 a'
      (hm.child (by simp [children, slots, Slot.fixed])) _ _ (.blank (by decide) _)
      (.blank (by decide) _) htail
    have hbehind : b.written depth ++ cs = b'.written depth ++ ds := by simpa using hbehind
    obtain ⟨hb, hends⟩ := (hrest b (by simp [children, slots, Slot.fixed])).2 b'
      (hm.child (by simp [children, slots, Slot.fixed])) _ _ hc hd hbehind
    have hcondition : c.unnumbered = c'.unnumbered := hleads
    exact ⟨by rw [unnumbered_conditional, unnumbered_conditional, hcondition, ha, hb], hends⟩
  · cases (List.cons.inj (List.cons.inj htail).2).1
  · rw [hnone'] at htail
    cases hmark hd htail.symm
  · cases (List.cons.inj (List.cons.inj htail).2).1
  · have hr := h.child (show r ∈ _ by simp [children, slots, Slot.fixed])
    have hr' := hm.child (show r' ∈ _ by simp [children, slots, Slot.fixed])
    have htail : r.spine.written depth ++ cs = r'.spine.written depth ++ ds := by
      rw [← written_spine, ← written_spine]
      simpa [tailWritten] using htail
    obtain ⟨hspine, hends⟩ := told_spine hr.spine hr'.spine
      (hrest r (by simp [children, slots, Slot.fixed])).1 hc.operand hd.operand htail
    have hleft : l.unnumbered = l'.unnumbered := hleads
    have hright := hr.unnumbered_eq hr' hspine
    exact ⟨by rw [unnumbered_binary, unnumbered_binary, hleft, hright], hends⟩

theorem Spine.mem_parts_after {s : Spine} {x : Suffix} {e : Node} (he : e ∈ (s.after x).parts) :
    e ∈ x.nodes ∨ e ∈ s.parts := by
  simp only [Spine.parts, Spine.after, List.flatMap_cons, List.mem_append] at he ⊢
  tauto

/-- What stands between parentheses and brackets of an operand is the operand itself, a child, or such
a part of a child. -/
theorem mem_parts {n e : Node} (he : e ∈ n.spine.parts) : (e = n ∧ n.isLoose = true) ∨
    e ∈ n.children ∨ ∃ c ∈ n.children, e ∈ c.spine.parts := by
  revert he
  fun_cases Node.spine n with
  | case1 e' name hloose =>
    intro he
    have hself : e = e' := by simpa [Spine.parts, hloose, Suffix.nodes] using he
    exact .inr (.inl (hself ▸ List.mem_cons_self))
  | case2 e' name hloose =>
    intro he
    rcases Spine.mem_parts_after he with he | he
    · cases he
    · exact .inr (.inr ⟨e', List.mem_cons_self, he⟩)
  | case3 e' i =>
    intro he
    rcases Spine.mem_parts_after he with he | he
    · exact .inr (.inl (List.mem_cons_of_mem _ he))
    · exact .inr (.inr ⟨e', List.mem_cons_self, he⟩)
  | case4 id callee es =>
    intro he
    rcases Spine.mem_parts_after he with (he : e ∈ es) | he
    · exact .inr (.inl (by simp [children, slots, Slot.fixed, he]))
    · exact .inr (.inr ⟨callee, List.mem_cons_self, he⟩)
  | case5 callee es =>
    intro he
    rcases Spine.mem_parts_after he with (he : e ∈ es) | he
    · exact .inr (.inl (by simp [children, slots, Slot.fixed, he]))
    · exact .inr (.inr ⟨callee, List.mem_cons_self, he⟩)
  | case6 e' => exact fun he => .inr (.inr ⟨e', List.mem_cons_self, he⟩)
  | case7 o e' => exact fun he => .inr (.inr ⟨e', List.mem_cons_self, he⟩)
  | case8 n haccess hindex hcall hnew hawait hunary =>
    intro he
    have hloose : n.isLooseObject = n.isLoose := isLooseObject_eq hawait hunary
    left
    simpa [Spine.parts, hloose, and_comm] using he

/-- Where everything is plain and grouped, every expression is told, and so is what stands between
parentheses and brackets. -/
theorem Clear.told {n : Node} (h : n.Clear) (depth : Nat) :
    (∀ e ∈ n.spine.parts, Told depth e) ∧ Told depth n := by
  induction n using ind_children with
  | _ n ih =>
    have hrest := fun c hc => ih c hc (h.child hc)
    have hparts : ∀ e ∈ n.spine.parts, (e = n ∧ n.isLoose = true) ∨ Told depth e := by
      intro e he
      rcases mem_parts he with hself | hc | ⟨c, hc, he⟩
      · exact .inl hself
      · exact .inr (hrest e hc).2
      · exact .inr ((hrest c hc).1 e he)
    have htold : Told depth n := by
      refine told_of_lead h (fun e he => ?_) hrest
      rcases h.shape depth with ⟨hfirm, hlead, -⟩ | ⟨c, a, b, rfl⟩ | ⟨l, r, rfl⟩
      · rw [hlead] at he
        rcases hparts e he with ⟨-, hloose⟩ | he
        · cases hfirm.symm.trans hloose
        · exact he
      · exact (hrest c List.mem_cons_self).1 e he
      · exact (hrest l List.mem_cons_self).1 e he
    exact ⟨fun e he => (hparts e he).elim (fun hself => hself.1 ▸ htold) id, htold⟩

/-! ### The text of expressions -/

theorem isLoose_unnumbered (n : Node) : n.unnumbered.isLoose = n.isLoose := by cases n <;> rfl

theorem isLooseObject_unnumbered (n : Node) : n.unnumbered.isLooseObject = n.isLooseObject := by
  cases n <;> rfl

theorem texts_unnumbered (h : ∀ n ∈ ns, n.unnumbered.text depth = n.text depth) :
    texts depth (ns.map unnumbered) = texts depth ns := by
  rw [texts_eq, texts_eq, List.map_map]
  exact List.map_congr_left h

/-- The numbers of calls are not printed. -/
theorem text_unnumbered {n : Node} (depth : Nat) (h : Everywhere (fun m => m.isPlain = true) [n]) :
    n.unnumbered.text depth = n.text depth := by
  induction n using ind_children with
  | _ n ih =>
    have ih := fun c hc => ih c hc (h.children.mem hc)
    have hplain := h.head
    cases n with
    | identifier name => rfl
    | propertyAccess e name =>
      show (propertyAccess e.unnumbered name).text depth = _
      rw [text, text, isLooseObject_unnumbered, ih e List.mem_cons_self]
    | elementAccess e i =>
      show (elementAccess e.unnumbered i.unnumbered).text depth = _
      rw [text, text, isLoose_unnumbered, ih e List.mem_cons_self,
        ih i (by simp [children, slots, Slot.fixed])]
    | call id callee typeArgs args =>
      have hargs : texts depth (args.map unnumbered) = texts depth args := texts_unnumbered
        fun a ha => ih a (by simp [children, slots, Slot.fixed, ha])
      rw [unnumbered_call, text, text, isLoose_unnumbered, ih callee List.mem_cons_self, hargs]
    | newObject callee args =>
      have hargs : texts depth (args.map unnumbered) = texts depth args := texts_unnumbered
        fun a ha => ih a (by simp [children, slots, Slot.fixed, ha])
      rw [unnumbered_newObject, text, text, isLoose_unnumbered, ih callee List.mem_cons_self, hargs]
    | await e =>
      show (Node.await e.unnumbered).text depth = _
      rw [text, text, isLoose_unnumbered, ih e List.mem_cons_self]
    | conditional c a b =>
      rw [unnumbered_conditional, text, text, isLoose_unnumbered, ih c List.mem_cons_self,
        ih a (by simp [children, slots, Slot.fixed]), ih b (by simp [children, slots, Slot.fixed])]
    | binary o l r =>
      rw [unnumbered_binary, text, text, isLoose_unnumbered, isLoose_unnumbered,
        ih l List.mem_cons_self, ih r (by simp [children, slots, Slot.fixed])]
    | unary o e =>
      show (unary o e.unnumbered).text depth = _
      rw [text, text, isLoose_unnumbered, ih e List.mem_cons_self]
    | _ => cases hplain

/-- Plain expressions in which everything is grouped have the same text just when they are the same,
up to the numbers of calls. -/
theorem text_eq_iff {n m : Node} (depth : Nat) (hn : ∀ k ∈ n.subtree, k.isPlain = true)
    (hm : ∀ k ∈ m.subtree, k.isPlain = true) (hn' : ∀ k ∈ n.subtree, k.isGrouped = true)
    (hm' : ∀ k ∈ m.subtree, k.isGrouped = true) :
    n.text depth = m.text depth ↔ n.unnumbered = m.unnumbered := by
  have hclear : ∀ {n : Node}, (∀ k ∈ n.subtree, k.isPlain = true) →
      (∀ k ∈ n.subtree, k.isGrouped = true) → n.Clear := fun hplain hgrouped =>
    List.forall_mem_singleton.2 fun k hk => ⟨hplain k hk, hgrouped k hk⟩
  constructor
  · intro heq
    refine (((hclear hn hn').told depth).2 m (hclear hm hm') [] [] .nil .nil ?_).1
    rw [written, written, heq]
  · intro heq
    rw [← text_unnumbered depth (List.forall_mem_singleton.2 hn), heq,
      text_unnumbered depth (List.forall_mem_singleton.2 hm)]

/-- `await new A(x + y).run()`, with a number for the call. -/
def awaitedRun (number : UInt32) : Node :=
  .await (.call ⟨number⟩ (.propertyAccess
    (.newObject (.identifier "A") [.binary "+" (.identifier "x") (.identifier "y")]) "run") [] [])

theorem text_eq_iff_awaitedRun :
    (∀ k ∈ (awaitedRun 1).subtree, k.isPlain = true) ∧
    (∀ k ∈ (awaitedRun 2).subtree, k.isPlain = true) ∧
    (∀ k ∈ (awaitedRun 1).subtree, k.isGrouped = true) ∧
    (∀ k ∈ (awaitedRun 2).subtree, k.isGrouped = true) ∧
    ((awaitedRun 1).text 0 = (awaitedRun 2).text 0 ↔
      (awaitedRun 1).unnumbered = (awaitedRun 2).unnumbered) := by
  have hplain : ∀ k ∈ (awaitedRun 1).subtree, k.isPlain = true := by decide +kernel
  have hplain' : ∀ k ∈ (awaitedRun 2).subtree, k.isPlain = true := by decide +kernel
  have hgrouped : ∀ k ∈ (awaitedRun 1).subtree, k.isGrouped = true := by decide +kernel
  have hgrouped' : ∀ k ∈ (awaitedRun 2).subtree, k.isGrouped = true := by decide +kernel
  exact ⟨hplain, hplain', hgrouped, hgrouped', text_eq_iff 0 hplain hplain' hgrouped hgrouped'⟩

/-- The element of an awaited value. -/
def elementOfAwaited : Node := .elementAccess (.await (.identifier "a")) (.identifier "b")

/-- An element that is awaited. -/
def awaitedElement : Node := .await (.elementAccess (.identifier "a") (.identifier "b"))

/-- The text `await a[b]` is that of two expressions: the parentheses of `(await a)[b]` are left
out. -/
theorem text_elementOfAwaited :
    (∀ k ∈ elementOfAwaited.subtree, k.isPlain = true) ∧
    (∀ k ∈ awaitedElement.subtree, k.isPlain = true) ∧
    elementOfAwaited.text 0 = awaitedElement.text 0 ∧ elementOfAwaited ≠ awaitedElement := by
  exact ⟨by decide +kernel, by decide +kernel, by decide +kernel, nofun⟩

end DateFields.Node
