import DateFields.Text.Word
import Mathlib.Data.Finset.Card
import Mathlib.Order.Interval.Finset.Nat

/-!
# Fresh names

The numbered names of a stem are searched in order, from the first one on and with nothing to bound
the search, for one that is not taken.  The search ends, for the numbers of the names that it passes
over are told by these names, and only so many names are taken.

* `numbered_inj` — numbered names with different numbers differ;
* `Seeks` — the search, as a relation between the number it begins at and the number it ends at;
* `Seeks.functional`, `Seeks.least` — it has one outcome at most, the least number with a free name;
* `exists_numbered_not_mem` — more consecutive numbers than there are taken names have a free one
  among their names;
* `exists_seeks`, `Seeks.le_add_card` — the search ends, wherever it begins, after as many steps as
  there are taken names at most;
* `Seeks.freshName_eq` — a fresh name is the one that the search ends at;
* `isIdentifier_numbered_iff` — numbered names are identifiers when their stem is one;
* `freshName_spec` — all of this about a fresh name; it is not taken (`freshName_not_mem`), and no
  name without a digit at its end (`freshName_ne`).
-/

namespace DateFields.Text

variable {stem : String} {taken : List String}

/-! ### Numbered names -/

theorem repr_inj {m n : Nat} (h : m.repr = n.repr) : m = n := by
  have hdigits : Nat.toDigits 10 m = Nat.toDigits 10 n := by
    rw [← Nat.toList_repr, ← Nat.toList_repr, h]
  rw [← Nat.ofDigitChars_toDigits (b := 10) (n := m) (by decide) (by decide), hdigits,
    Nat.ofDigitChars_toDigits (by decide) (by decide)]

/-- A numbered name tells its number. -/
theorem numbered_inj {m n : Nat} (h : numbered stem m = numbered stem n) : m = n :=
  repr_inj (String.append_right_inj _ |>.1 h)

theorem toList_numbered (stem : String) (n : Nat) :
    (numbered stem n).toList = stem.toList ++ '_' :: Nat.toDigits 10 n := by
  simp [numbered, Nat.toList_repr]

/-- The stem decides whether a numbered name is an identifier; one without a stem always is. -/
theorem isIdentifier_numbered_iff {n : Nat} :
    isIdentifier (numbered stem n) = true ↔ stem = "" ∨ isIdentifier stem = true := by
  have hdigits : (Nat.toDigits 10 n).all isNameChar = true := List.all_eq_true.2 fun c hc =>
    isNameChar_of_isDigit (Nat.isDigit_of_mem_toDigits (by decide) (by decide) hc)
  have hunderscore : isNameStart '_' = true := rfl
  rw [isIdentifier, isIdentifier, toList_numbered, ← String.toList_eq_nil_iff]
  cases stem.toList with
  | nil => simp [isIdentifierChars, hunderscore, hdigits]
  | cons c cs =>
    simp [isIdentifierChars, isNameChar_of_isNameStart hunderscore, hdigits]

/-- Among consecutive numbers, when they are more than the taken names, one has a free name. -/
theorem exists_numbered_not_mem (stem : String) {k n : Nat} (h : k + taken.toFinset.card < n) :
    ∃ m, k ≤ m ∧ m < n ∧ numbered stem m ∉ taken := by
  have hcard : ((Finset.Ico k n).image (numbered stem)).card = n - k := by
    rw [Finset.card_image_of_injective _ fun _ _ => numbered_inj, Nat.card_Ico]
  have hmore : taken.toFinset.card < ((Finset.Ico k n).image (numbered stem)).card := by omega
  obtain ⟨name, hname, hfree⟩ := Finset.exists_mem_notMem_of_card_lt_card hmore
  obtain ⟨m, hm, rfl⟩ := Finset.mem_image.1 hname
  obtain ⟨hle, hlt⟩ := Finset.mem_Ico.1 hm
  exact ⟨m, hle, hlt, fun hmem => hfree (List.mem_toFinset.2 hmem)⟩

/-! ### The search -/

/-- The search for a free name, begun at the first number, ends at the second. -/
inductive Seeks (stem : String) (taken : List String) : Nat → Nat → Prop
  /-- It ends at a name that is free. -/
  | free {k : Nat} (hk : numbered stem k ∉ taken) : Seeks stem taken k k
  /-- From a name that is taken it goes on to the next. -/
  | next {k n : Nat} (hk : numbered stem k ∈ taken) (hrest : Seeks stem taken (k + 1) n) :
    Seeks stem taken k n

namespace Seeks

variable {k m n : Nat}

/-- The search has one outcome at most. -/
theorem functional (hm : Seeks stem taken k m) (hn : Seeks stem taken k n) : m = n := by
  induction hm with
  | free hk =>
    cases hn with
    | free => rfl
    | next hk' => exact absurd hk' hk
  | next hk _ ih =>
    cases hn with
    | free hk' => exact absurd hk hk'
    | next _ hrest => exact ih hrest

/-- The search ends at the least number, from its beginning on, that has a free name. -/
theorem least (h : Seeks stem taken k n) :
    k ≤ n ∧ numbered stem n ∉ taken ∧ ∀ m, k ≤ m → m < n → numbered stem m ∈ taken := by
  induction h with
  | free hk => exact ⟨Nat.le_refl _, hk, fun m hle hlt => absurd hle (Nat.not_le_of_lt hlt)⟩
  | next hk _ ih =>
    obtain ⟨hle, hfree, htaken⟩ := ih
    refine ⟨Nat.le_of_succ_le hle, hfree, fun m hm hlt => ?_⟩
    rcases Nat.eq_or_lt_of_le hm with rfl | hm
    · exact hk
    · exact htaken m hm hlt

/-- The search passes over as many names as there are taken ones at most. -/
theorem le_add_card (h : Seeks stem taken k n) : n ≤ k + taken.toFinset.card := by
  obtain ⟨-, -, htaken⟩ := h.least
  by_contra hmore
  obtain ⟨m, hle, hlt, hfree⟩ := exists_numbered_not_mem stem (Nat.lt_of_not_le hmore)
  exact hfree (htaken m hle hlt)

end Seeks

/-- The search ends when there is a free name from its beginning on. -/
theorem exists_seeks_of_not_mem {k m : Nat} (hle : k ≤ m) (hfree : numbered stem m ∉ taken) :
    ∃ n, Seeks stem taken k n := by
  -- back from the free name to the beginning: each step is the last one or is followed by the next
  induction hle using Nat.decreasingInduction with
  | self => exact ⟨m, .free hfree⟩
  | of_succ j _ ih =>
    by_cases hj : numbered stem j ∈ taken
    · obtain ⟨n, hrest⟩ := ih
      exact ⟨n, .next hj hrest⟩
    · exact ⟨j, .free hj⟩

/-- The search ends, wherever it begins. -/
theorem exists_seeks (stem : String) (taken : List String) (k : Nat) :
    ∃ n, Seeks stem taken k n := by
  obtain ⟨m, hle, -, hfree⟩ :=
    exists_numbered_not_mem stem (Nat.lt_succ_self (k + taken.toFinset.card))
  exact exists_seeks_of_not_mem hle hfree

/-! ### Fresh names -/

/-- A fresh name is the one that the search ends at: one candidate more than there are taken names
is enough. -/
theorem Seeks.freshName_eq {n : Nat} (h : Seeks stem taken 1 n) :
    freshName stem taken = numbered stem n := by
  obtain ⟨hle, hfree, htaken⟩ := h.least
  have hbound : n ≤ 1 + taken.length :=
    h.le_add_card.trans (Nat.add_le_add_left (List.toFinset_card_le taken) 1)
  have hfind : (List.range' 1 (taken.length + 1)).find?
      ((fun name => !taken.contains name) ∘ numbered stem) = some n := by
    rw [List.find?_range'_eq_some]
    refine ⟨by simpa using hfree, List.mem_range'_1.2 ⟨hle, by omega⟩, fun m hm hlt => ?_⟩
    simpa using htaken m hm hlt
  rw [freshName, List.find?_map, hfind, Option.map_some, Option.getD_some]

/-- A fresh name is a numbered name that is not taken. -/
theorem exists_freshName_eq (stem : String) (taken : List String) :
    ∃ n, freshName stem taken = numbered stem n ∧ numbered stem n ∉ taken := by
  obtain ⟨n, h⟩ := exists_seeks stem taken 1
  exact ⟨n, h.freshName_eq, h.least.2.1⟩

theorem freshName_not_mem (stem : String) (taken : List String) : freshName stem taken ∉ taken := by
  obtain ⟨n, heq, hfree⟩ := exists_freshName_eq stem taken
  rwa [heq]

/-- A name that does not end in a digit is never a fresh name. -/
theorem freshName_ne {name : String} (h : name.toList.getLast?.any Char.isDigit = false) :
    freshName stem taken ≠ name := by
  obtain ⟨n, hn, -⟩ := exists_freshName_eq stem taken
  rintro rfl
  have hne : Nat.toDigits 10 n ≠ [] := by
    rw [← List.length_pos_iff]
    exact Nat.length_toDigits_pos
  rw [hn, toList_numbered, List.getLast?_append, List.getLast?_cons_of_ne_nil hne,
    List.getLast?_eq_some_getLast hne, Option.some_or, Option.any_some] at h
  rw [Nat.isDigit_of_mem_toDigits (by decide) (by decide) (List.getLast_mem hne)] at h
  cases h

/-- For every stem, whatever names are taken, the unbounded search from the first numbered name on
ends, at one number only, and the fresh name is the numbered name there.  It is not taken, every
numbered name before it is, and its number is one more than that of the taken names at most.  It is
an identifier when the stem is one or is empty, and only then. -/
theorem freshName_spec (stem : String) (taken : List String) :
    ∃ n, (∀ m, Seeks stem taken 1 m ↔ m = n) ∧
      freshName stem taken = numbered stem n ∧ 1 ≤ n ∧
      freshName stem taken ∉ taken ∧
      (∀ m, 1 ≤ m → m < n → numbered stem m ∈ taken) ∧
      n ≤ taken.toFinset.card + 1 ∧
      (isIdentifier (freshName stem taken) = true ↔ stem = "" ∨ isIdentifier stem = true) := by
  obtain ⟨n, hn⟩ := exists_seeks stem taken 1
  obtain ⟨hpos, hfree, htaken⟩ := hn.least
  have heq : freshName stem taken = numbered stem n := hn.freshName_eq
  refine ⟨n, fun m => ⟨fun hm => hm.functional hn, ?_⟩, heq, hpos, ?_, htaken, ?_, ?_⟩
  · rintro rfl
    exact hn
  · rwa [heq]
  · rw [Nat.add_comm]
    exact hn.le_add_card
  · rw [heq]
    exact isIdentifier_numbered_iff

example : freshName "name" ["name_2", "name", "name_1", "name_4"] = "name_3" := by decide

end DateFields.Text
