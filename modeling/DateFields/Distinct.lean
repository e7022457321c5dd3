/-!
# First occurrences

* `distinctBy` — a list without the entries whose key an earlier entry has; the keys that are left
  are those of the list (`mem_map_distinctBy`), each once (`nodup_map_distinctBy`);
* `mem_distinctBy_iff`, `pairwise_distinctBy` — what is left are the first entries of the keys, in
  the order of their places;
* `filter_distinctBy`, `distinctBy_append`, `distinctBy_flatMap_distinctBy` — what is left of a list
  with entries taken out, of one that goes on, and of lists one after the other;
* `pushNew`, `foldl_pushNew` — entries put behind others one after the other, each only if its key is
  not there yet.
-/

namespace DateFields

variable {α κ : Type} [DecidableEq κ] (key : α → κ)

/-- The first entry of every key, in order. -/
def distinctBy : List α → List α
  | [] => []
  | a :: as => a :: (distinctBy as).filter fun b => key b ≠ key a

theorem mem_of_mem_distinctBy {a : α} {as : List α} (h : a ∈ distinctBy key as) : a ∈ as := by
  induction as with
  | nil => simp [distinctBy] at h
  | cons b bs ih =>
    simp only [distinctBy, List.mem_cons, List.mem_filter] at h
    rcases h with rfl | ⟨h, -⟩
    · exact List.mem_cons_self
    · exact List.mem_cons_of_mem b (ih h)

/-- No key is lost. -/
theorem mem_map_distinctBy {k : κ} {as : List α} :
    k ∈ (distinctBy key as).map key ↔ k ∈ as.map key := by
  induction as with
  | nil => simp [distinctBy]
  | cons b bs ih =>
    simp only [List.mem_map] at ih
    simp only [distinctBy, List.map_cons, List.mem_cons, List.mem_map, List.mem_filter,
      decide_eq_true_eq]
    constructor
    · rintro (rfl | ⟨a, ⟨ha, -⟩, rfl⟩)
      · exact .inl rfl
      · exact .inr (ih.1 ⟨a, ha, rfl⟩)
    · rintro (rfl | h)
      · exact .inl rfl
      · by_cases hk : k = key b
        · exact .inl hk
        · obtain ⟨a, ha, rfl⟩ := ih.2 h
          exact .inr ⟨a, ⟨ha, hk⟩, rfl⟩

/-- Every key is left once. -/
theorem nodup_map_distinctBy (as : List α) : ((distinctBy key as).map key).Nodup := by
  induction as with
  | nil => simp [distinctBy]
  | cons b bs ih =>
    rw [distinctBy, List.map_cons, List.nodup_cons]
    refine ⟨by simp, ?_⟩
    rw [List.Nodup, List.pairwise_map] at ih ⊢
    exact ih.filter _

/-- A list whose keys differ is left as it is. -/
theorem distinctBy_of_nodup {as : List α} (h : (as.map key).Nodup) : distinctBy key as = as := by
  induction as with
  | nil => rfl
  | cons b bs ih =>
    rw [List.map_cons, List.nodup_cons] at h
    rw [distinctBy, ih h.2, List.filter_eq_self.2]
    intro a ha
    rw [decide_eq_true_eq]
    exact fun e => h.1 (List.mem_map.2 ⟨a, ha, e⟩)

/-! ### Places -/

variable {key}

/-- Taking entries out by their keys makes no difference to which are the first ones. -/
theorem filter_distinctBy (p : κ → Bool) (as : List α) :
    (distinctBy key as).filter (p <| key ·) = distinctBy key (as.filter (p <| key ·)) := by
  induction as with
  | nil => rfl
  | cons a as ih =>
    rw [distinctBy, List.filter_cons, List.filter_cons]
    by_cases ha : p (key a) = true
    · rw [if_pos ha, if_pos ha, distinctBy, ← ih, List.filter_filter, List.filter_filter]
      simp only [Bool.and_comm]
    · rw [if_neg ha, if_neg ha, ← ih, List.filter_filter]
      refine List.filter_congr fun b _ => ?_
      by_cases hb : key b = key a <;> simp_all

/-- What is left of a list is the first entry of every key. -/
theorem mem_distinctBy_iff {a : α} {as : List α} :
    a ∈ distinctBy key as ↔ as.find? (key · = key a) = some a := by
  induction as with
  | nil => simp [distinctBy]
  | cons b bs ih =>
    rw [distinctBy, List.mem_cons, List.mem_filter, ih, List.find?_cons]
    by_cases hab : key b = key a
    · simp [hab, eq_comm]
    · have hne : a ≠ b := fun h => hab (congrArg key h.symm)
      simp [hab, hne, Ne.symm hab]

/-- The first entries come in the order of their places. -/
theorem pairwise_distinctBy (as : List α) : (distinctBy key as).Pairwise fun a b =>
    as.findIdx (key · = key a) < as.findIdx (key · = key b) := by
  induction as with
  | nil => exact .nil
  | cons c cs ih =>
    rw [distinctBy, List.pairwise_cons]
    have hne : ∀ b ∈ (distinctBy key cs).filter fun b => key b ≠ key c, key c ≠ key b :=
      fun b hb => Ne.symm (by simpa using (List.mem_filter.1 hb).2)
    refine ⟨fun b hb => ?_, (ih.filter _).imp_of_mem fun ha hb h => ?_⟩
    · simp [List.findIdx_cons, hne b hb]
    · simpa [List.findIdx_cons, hne _ ha, hne _ hb] using h

theorem distinctBy_append (as bs : List α) : distinctBy key (as ++ bs) =
    distinctBy key as ++ (distinctBy key bs).filter fun b => key b ∉ as.map key := by
  induction as with
  | nil => exact (List.filter_eq_self.2 (by simp)).symm
  | cons a as ih =>
    rw [List.cons_append, distinctBy, ih, distinctBy, List.filter_append, List.filter_filter,
      List.cons_append]
    refine congrArg (a :: _ ++ ·) (List.filter_congr fun b _ => ?_)
    simp [eq_comm]

/-- The first entries of lists one after the other are those of the first entries of each. -/
theorem distinctBy_flatMap_distinctBy {β : Type} (f : β → List α) (bs : List β) :
    distinctBy key (bs.flatMap fun b => distinctBy key (f b)) = distinctBy key (bs.flatMap f) := by
  induction bs with
  | nil => rfl
  | cons b bs ih =>
    rw [List.flatMap_cons, List.flatMap_cons, distinctBy_append, distinctBy_append, ih,
      distinctBy_of_nodup key (nodup_map_distinctBy key (f b))]
    simp only [mem_map_distinctBy]

/-- Entries whose keys come before them make no difference. -/
theorem distinctBy_append_append {as bs : List α} (h : ∀ b ∈ bs, key b ∈ as.map key)
    (cs : List α) : distinctBy key (as ++ bs ++ cs) = distinctBy key (as ++ cs) := by
  have hnone : (distinctBy key bs).filter (fun b => key b ∉ as.map key) = [] := by
    simp only [List.filter_eq_nil_iff, decide_eq_true_eq, Decidable.not_not]
    exact fun b hb => h b (mem_of_mem_distinctBy key hb)
  have hkeys : ∀ c : α, key c ∉ (as ++ bs).map key ↔ key c ∉ as.map key := by
    intro c
    rw [List.map_append, List.mem_append, or_iff_left_of_imp]
    rintro hc
    obtain ⟨b, hb, hbc⟩ := List.mem_map.1 hc
    exact hbc ▸ h b hb
  rw [distinctBy_append, distinctBy_append as bs, distinctBy_append as cs, hnone, List.append_nil]
  simp only [hkeys]

/-! ### One after the other -/

variable (key)

/-- A list with an entry put behind it, unless one of the list has its key. -/
def pushNew (as : List α) (a : α) : List α := if key a ∈ as.map key then as else as ++ [a]

/-- Pushing entries behind the first ones of a list gives the first ones of both. -/
theorem foldl_pushNew (as bs : List α) :
    bs.foldl (pushNew key) (distinctBy key as) = distinctBy key (as ++ bs) := by
  induction bs generalizing as with
  | nil => rw [List.foldl_nil, List.append_nil]
  | cons b bs ih =>
    have hstep : pushNew key (distinctBy key as) b = distinctBy key (as ++ [b]) := by
      rw [pushNew, distinctBy_append]
      simp only [mem_map_distinctBy]
      by_cases hb : key b ∈ as.map key <;> simp [distinctBy, hb, -List.mem_map]
    rw [List.foldl_cons, hstep, ih, List.append_assoc, List.singleton_append]

end DateFields
