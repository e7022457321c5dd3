import Mathlib.Data.List.Basic

/-!
# Separators outside parentheses

A list of texts can be told from the texts with separators between them, as long as no separator
stands in one of the texts outside its parentheses.

* `depthAfter?` — how deep in parentheses a text ends, unless a separator stands outside of them;
* `Closed` — a text in which every parenthesis is closed and no separator stands outside of them;
* `eq_of_append_separator` — where the first separator stands;
* `intercalate_inj` — texts between separators.
-/

namespace DateFields.Text

/-- The depth behind a character.  There is none when it closes a parenthesis that has not been
opened, or when it is the separator outside of all. -/
def deepen? (sep : Char) (depth : Nat) (c : Char) : Option Nat :=
  if c = '(' then some (depth + 1)
  else if c = ')' then (if depth = 0 then none else some (depth - 1))
  else if c = sep ∧ depth = 0 then none
  else some depth

/-- How deep in parentheses a text ends that begins at a depth. -/
def depthAfter? (sep : Char) : Nat → List Char → Option Nat
  | depth, [] => some depth
  | depth, c :: cs => (deepen? sep depth c).bind (depthAfter? sep · cs)

/-- Every parenthesis is closed, and the separator only stands inside of them. -/
def Closed (sep : Char) (cs : List Char) : Prop := depthAfter? sep 0 cs = some 0

/-- Inside parentheses the text is closed, wherever the separator stands. -/
def ClosedInside (sep : Char) (cs : List Char) : Prop :=
  ∀ depth, depthAfter? sep (depth + 1) cs = some (depth + 1)

/-- The character is neither a parenthesis nor a blank. -/
def IsSeparator (sep : Char) : Prop := sep ≠ '(' ∧ sep ≠ ')' ∧ sep ≠ ' '

variable {sep sep' : Char} {as bs cs rest rest' : List Char} {depth : Nat}

theorem depthAfter?_append (depth : Nat) (as bs : List Char) : depthAfter? sep depth (as ++ bs) =
    (depthAfter? sep depth as).bind (depthAfter? sep · bs) := by
  induction as generalizing depth with
  | nil => rfl
  | cons a as ih => simp only [List.cons_append, depthAfter?, ih, Option.bind_assoc]

/-- A character without a meaning of its own changes no depth. -/
theorem depthAfter?_cons {c : Char} (hopen : c ≠ '(') (hclose : c ≠ ')')
    (hsep : c ≠ sep ∨ depth ≠ 0) : depthAfter? sep depth (c :: cs) = depthAfter? sep depth cs := by
  have hnot : ¬ (c = sep ∧ depth = 0) := by tauto
  rw [depthAfter?, deepen?, if_neg hopen, if_neg hclose, if_neg hnot, Option.bind_some]

theorem depthAfter?_blank (hsep : IsSeparator sep) :
    depthAfter? sep depth (' ' :: cs) = depthAfter? sep depth cs :=
  depthAfter?_cons (by decide) (by decide) (.inl (Ne.symm hsep.2.2))

theorem depthAfter?_sep_zero (hsep : IsSeparator sep) : depthAfter? sep 0 (sep :: cs) = none := by
  rw [depthAfter?, deepen?, if_neg hsep.1, if_neg hsep.2.1, if_pos ⟨rfl, rfl⟩, Option.bind_none]

theorem deepen?_add {c : Char} {depth' : Nat} (h : deepen? sep depth c = some depth') (n : Nat) :
    deepen? sep (depth + n) c = some (depth' + n) := by
  unfold deepen? at h ⊢
  split_ifs at h ⊢ <;> simp_all <;> omega

/-- A text that has a depth at its end also has one when it begins deeper. -/
theorem depthAfter?_add {depth' : Nat} (h : depthAfter? sep depth cs = some depth') (n : Nat) :
    depthAfter? sep (depth + n) cs = some (depth' + n) := by
  induction cs generalizing depth with
  | nil => rw [depthAfter?] at h ⊢; rw [Option.some.inj h]
  | cons c cs ih =>
    obtain ⟨next, hnext, hrest⟩ := Option.bind_eq_some_iff.1 h
    rw [depthAfter?, deepen?_add hnext, Option.bind_some]
    exact ih hrest

/-! ### Closed texts -/

/-- A text without parentheses and separators is closed. -/
theorem closed_of_forall (h : ∀ c ∈ cs, c ≠ '(' ∧ c ≠ ')' ∧ c ≠ sep) : Closed sep cs := by
  induction cs with
  | nil => rfl
  | cons c cs ih =>
    obtain ⟨⟨hopen, hclose, hsep⟩, hrest⟩ := List.forall_mem_cons.1 h
    rw [Closed, depthAfter?_cons hopen hclose (.inl hsep)]
    exact ih hrest

theorem Closed.inside (h : Closed sep cs) : ClosedInside sep cs := by
  intro depth
  simpa using depthAfter?_add h (depth + 1)

theorem Closed.append (h : Closed sep as) (h' : Closed sep bs) : Closed sep (as ++ bs) := by
  rw [Closed, depthAfter?_append, h, Option.bind_some, h']

theorem ClosedInside.append (h : ClosedInside sep as) (h' : ClosedInside sep bs) :
    ClosedInside sep (as ++ bs) := by
  intro depth
  rw [depthAfter?_append, h, Option.bind_some, h']

/-- Parentheses close a text. -/
theorem ClosedInside.parens (h : ClosedInside sep cs) : Closed sep ('(' :: (cs ++ [')'])) := by
  have hclose : depthAfter? sep 1 [')'] = some 0 := rfl
  rw [Closed, depthAfter?, deepen?, if_pos rfl, Option.bind_some, depthAfter?_append, h 0,
    Option.bind_some, hclose]

/-! ### Texts between separators -/

/-- What stands in front of the first separator, and what stands behind it. -/
theorem eq_of_append_separator (hsep : IsSeparator sep) (ha : depthAfter? sep depth as = some 0)
    (hb : depthAfter? sep depth bs = some 0) (h : as ++ sep :: rest = bs ++ sep :: rest') :
    as = bs ∧ rest = rest' := by
  have hnot : ∀ cs, depthAfter? sep 0 (sep :: cs) ≠ some 0 := by
    intro cs
    rw [depthAfter?_sep_zero hsep]
    simp
  induction as generalizing bs depth with
  | nil =>
    obtain rfl : depth = 0 := Option.some.inj ha
    cases bs with
    | nil => exact ⟨rfl, (List.cons.inj h).2⟩
    | cons b bs =>
      obtain ⟨rfl, -⟩ := List.cons.inj h
      exact absurd hb (hnot bs)
  | cons a as ih =>
    cases bs with
    | nil =>
      obtain rfl : depth = 0 := Option.some.inj hb
      obtain ⟨rfl, -⟩ := List.cons.inj h
      exact absurd ha (hnot as)
    | cons b bs =>
      obtain ⟨rfl, htail⟩ := List.cons.inj h
      obtain ⟨next, hnext, htake⟩ := Option.bind_eq_some_iff.1 ha
      rw [depthAfter?, hnext, Option.bind_some] at hb
      obtain ⟨rfl, rfl⟩ := ih htake hb htail
      exact ⟨rfl, rfl⟩

/-- What stands between texts: the separator with a blank on either side. -/
def spaced (sep : Char) : List Char := [' ', sep, ' ']

theorem closed_blank (hsep : IsSeparator sep) : Closed sep [' '] := by
  rw [Closed, depthAfter?_blank hsep, depthAfter?]

theorem closedInside_spaced (hsep : IsSeparator sep) (hsep' : IsSeparator sep') :
    ClosedInside sep (spaced sep') := by
  intro depth
  rw [spaced, depthAfter?_blank hsep, depthAfter?_cons hsep'.1 hsep'.2.1 (.inr (by simp)),
    depthAfter?_blank hsep, depthAfter?]

theorem closed_spaced (hsep : IsSeparator sep) (hsep' : IsSeparator sep') (hne : sep' ≠ sep) :
    Closed sep (spaced sep') := by
  rw [Closed, spaced, depthAfter?_blank hsep, depthAfter?_cons hsep'.1 hsep'.2.1 (.inl hne),
    depthAfter?_blank hsep, depthAfter?]

/-- A property of texts holds of texts with others between them. -/
theorem intercalate_induction {P : List Char → Prop} (hnil : P []) {between : List Char}
    (hbetween : P between) (happend : ∀ {as bs}, P as → P bs → P (as ++ bs))
    {texts : List (List Char)} (h : ∀ cs ∈ texts, P cs) : P (between.intercalate texts) := by
  induction texts with
  | nil => exact hnil
  | cons a texts ih =>
    obtain ⟨ha, htexts⟩ := List.forall_mem_cons.1 h
    cases texts with
    | nil => simpa using ha
    | cons b texts =>
      rw [List.intercalate_cons_cons]
      exact happend (happend ha hbetween) (ih htexts)

theorem length_le_intercalate {between : List Char} {texts : List (List Char)} (h : cs ∈ texts) :
    cs.length ≤ (between.intercalate texts).length := by
  induction texts with
  | nil => cases h
  | cons a texts ih =>
    cases texts with
    | nil =>
      obtain rfl := List.mem_singleton.1 h
      simp
    | cons b texts =>
      rw [List.intercalate_cons_cons, List.length_append, List.length_append]
      rcases List.mem_cons.1 h with rfl | h
      · omega
      · exact Nat.le_add_left_of_le (ih h)

theorem intercalate_append {between : List Char} {texts texts' : List (List Char)}
    (hne : texts ≠ []) (hne' : texts' ≠ []) : between.intercalate (texts ++ texts') =
      between.intercalate texts ++ between ++ between.intercalate texts' := by
  induction texts with
  | nil => exact absurd rfl hne
  | cons a texts ih =>
    cases texts with
    | nil => rw [List.intercalate_singleton, List.singleton_append,
        List.intercalate_cons_of_ne_nil hne']
    | cons b texts =>
      rw [List.intercalate_cons_cons, List.cons_append, List.intercalate_cons_of_ne_nil (by simp),
        ih (by simp)]
      simp only [List.append_assoc]

/-- Groups of texts are put together with the separator that stands inside of them. -/
theorem intercalate_flatMap {α : Type} {between : List Char} {f : α → List (List Char)}
    {as : List α} (h : ∀ a ∈ as, f a ≠ []) : between.intercalate (as.flatMap f) =
      between.intercalate (as.map fun a => between.intercalate (f a)) := by
  induction as with
  | nil => rfl
  | cons a as ih =>
    obtain ⟨ha, has⟩ := List.forall_mem_cons.1 h
    cases as with
    | nil => simp
    | cons b as =>
      have hrest : (b :: as).flatMap f ≠ [] := by
        rw [List.flatMap_cons]
        exact List.append_ne_nil_of_left_ne_nil (has b List.mem_cons_self) _
      have hmap : (b :: as).map (fun a => between.intercalate (f a)) ≠ [] := by simp
      rw [List.flatMap_cons, intercalate_append ha hrest, ih has, List.map_cons (l := b :: as),
        List.intercalate_cons_of_ne_nil hmap]

/-- Two texts or more with separators between them are not closed. -/
theorem depthAfter?_intercalate (hsep : IsSeparator sep) (h : Closed sep as) (bs : List Char)
    (texts : List (List Char)) :
    depthAfter? sep 0 ((spaced sep).intercalate (as :: bs :: texts)) = none := by
  rw [List.intercalate_cons_cons, List.append_assoc, depthAfter?_append, h, Option.bind_some, spaced,
    List.cons_append, depthAfter?_blank hsep, List.cons_append, depthAfter?_sep_zero hsep]

/-- Closed texts can be told from the texts with separators between them. -/
theorem intercalate_inj (hsep : IsSeparator sep) {texts texts' : List (List Char)}
    (h : ∀ cs ∈ texts, Closed sep cs) (h' : ∀ cs ∈ texts', Closed sep cs) (hne : texts ≠ [])
    (hne' : texts' ≠ [])
    (heq : (spaced sep).intercalate texts = (spaced sep).intercalate texts') : texts = texts' := by
  induction texts generalizing texts' with
  | nil => exact absurd rfl hne
  | cons a texts ih =>
    obtain ⟨b, texts', rfl⟩ := List.exists_cons_of_ne_nil hne'
    obtain ⟨ha, htexts⟩ := List.forall_mem_cons.1 h
    obtain ⟨hb, htexts'⟩ := List.forall_mem_cons.1 h'
    rcases texts with _ | ⟨a', texts⟩ <;> rcases texts' with _ | ⟨b', texts'⟩
    · simpa using heq
    · rw [List.intercalate_singleton] at heq
      rw [Closed, heq, depthAfter?_intercalate hsep hb] at ha
      cases ha
    · rw [List.intercalate_singleton] at heq
      rw [Closed, ← heq, depthAfter?_intercalate hsep ha] at hb
      cases hb
    · rw [List.intercalate_cons_cons, List.intercalate_cons_cons] at heq
      have hblank := closed_blank hsep
      have hcut : a ++ [' '] ++ sep :: ' ' :: (spaced sep).intercalate (a' :: texts) =
          b ++ [' '] ++ sep :: ' ' :: (spaced sep).intercalate (b' :: texts') := by
        simpa [spaced] using heq
      obtain ⟨hhead, hrest⟩ :=
        eq_of_append_separator hsep (ha.append hblank) (hb.append hblank) hcut
      rw [List.append_cancel_right hhead,
        ih htexts htexts' (by simp) (by simp) (List.cons.inj hrest).2]

end DateFields.Text
