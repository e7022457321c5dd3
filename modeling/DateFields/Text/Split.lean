/-!
# Cutting a text

* `splitOn` — the pieces of a text between the characters at which it is cut; no piece holds a cut
  (`not_cut_of_mem_splitOn`), pieces put together with cuts between them are found again
  (`splitOn_intercalate`), and what is put behind a text goes to its last piece
  (`exists_splitOn_append`);
* `append_inj_of_cut` — what stands in front of the first cut;
* `lines` — the lines of a text, without their line ends.
-/

namespace DateFields.Text

/-- The pieces between the characters that satisfy `cut`, empty ones included. -/
def splitOn (cut : Char → Bool) : List Char → List (List Char)
  | [] => [[]]
  | c :: cs =>
    if cut c then [] :: splitOn cut cs
    else match splitOn cut cs with
      | [] => [[c]]
      | p :: ps => (c :: p) :: ps

variable {cut : Char → Bool}

theorem splitOn_ne_nil (cs : List Char) : splitOn cut cs ≠ [] := by
  cases cs with
  | nil => simp [splitOn]
  | cons c cs => rw [splitOn]; repeat' split
                 all_goals simp

theorem splitOn_cons_of_cut {c : Char} (h : cut c = true) (cs : List Char) :
    splitOn cut (c :: cs) = [] :: splitOn cut cs := by
  simp [splitOn, h]

/-- A text without a cut is its only piece. -/
theorem splitOn_of_all {cs : List Char} (h : ∀ c ∈ cs, cut c = false) : splitOn cut cs = [cs] := by
  induction cs with
  | nil => rfl
  | cons c cs ih =>
    rw [splitOn, h c (List.mem_cons_self), ih fun d hd => h d (List.mem_cons_of_mem c hd)]
    rfl

/-- A piece, a cut, and the pieces of the rest. -/
theorem splitOn_append_cons {p : List Char} (h : ∀ c ∈ p, cut c = false) {c : Char}
    (hc : cut c = true) (cs : List Char) : splitOn cut (p ++ c :: cs) = p :: splitOn cut cs := by
  induction p with
  | nil => exact splitOn_cons_of_cut hc cs
  | cons d p ih =>
    rw [List.cons_append, splitOn, h d (List.mem_cons_self),
      ih fun e he => h e (List.mem_cons_of_mem d he)]
    rfl

/-- The pieces before a cut and those behind it. -/
theorem splitOn_append_cut {c : Char} (hc : cut c = true) (as bs : List Char) :
    splitOn cut (as ++ c :: bs) = splitOn cut as ++ splitOn cut bs := by
  induction as with
  | nil => rw [List.nil_append, splitOn_cons_of_cut hc, splitOn, List.singleton_append]
  | cons a as ih =>
    by_cases ha : cut a = true
    · rw [List.cons_append, splitOn_cons_of_cut ha, splitOn_cons_of_cut ha, ih, List.cons_append]
    · simp only [List.cons_append, splitOn, ha, ih]
      cases hs : splitOn cut as with
      | nil => exact absurd hs (splitOn_ne_nil as)
      | cons p ps => rfl

/-- Texts without cuts are the pieces when they are put together with a cut between them. -/
theorem splitOn_intercalate {c : Char} (hc : cut c = true) {pieces : List (List Char)}
    (hne : pieces ≠ []) (h : ∀ p ∈ pieces, ∀ d ∈ p, cut d = false) :
    splitOn cut ([c].intercalate pieces) = pieces := by
  induction pieces with
  | nil => exact absurd rfl hne
  | cons p pieces ih =>
    obtain ⟨hp, hrest⟩ := List.forall_mem_cons.1 h
    cases pieces with
    | nil => rw [List.intercalate_singleton, splitOn_of_all hp]
    | cons q pieces =>
      rw [List.intercalate_cons_cons, List.append_assoc, List.singleton_append,
        splitOn_append_cons hp hc, ih (by simp) hrest]

theorem not_cut_of_mem_splitOn {p cs : List Char} (hp : p ∈ splitOn cut cs) :
    ∀ c ∈ p, cut c = false := by
  induction cs generalizing p with
  | nil => simp_all [splitOn]
  | cons c cs ih =>
    by_cases h : cut c = true
    · rw [splitOn_cons_of_cut h, List.mem_cons] at hp
      rcases hp with rfl | hp
      · simp
      · exact ih hp
    · simp only [splitOn, h] at hp
      cases hs : splitOn cut cs with
      | nil => exact absurd hs (splitOn_ne_nil cs)
      | cons q qs =>
        simp only [hs, Bool.false_eq_true, if_false, List.mem_cons] at hp
        rw [hs] at ih
        rcases hp with rfl | hp
        · simpa [h] using ih (List.mem_cons_self)
        · exact ih (List.mem_cons_of_mem q hp)

/-- What is put behind a text without a cut belongs to its last piece. -/
theorem exists_splitOn_append {bs : List Char} (h : ∀ c ∈ bs, cut c = false) (as : List Char) :
    ∃ pieces last, splitOn cut (as ++ bs) = pieces ++ [last ++ bs] := by
  induction as with
  | nil => exact ⟨[], [], splitOn_of_all h⟩
  | cons a as ih =>
    obtain ⟨pieces, last, hpieces⟩ := ih
    by_cases ha : cut a = true
    · exact ⟨[] :: pieces, last, by rw [List.cons_append, splitOn_cons_of_cut ha, hpieces]; rfl⟩
    · simp only [List.cons_append, splitOn, ha, hpieces]
      cases pieces with
      | nil => exact ⟨[], a :: last, rfl⟩
      | cons p pieces => exact ⟨(a :: p) :: pieces, last, rfl⟩

/-- A text tells what stands in front of its first cut. -/
theorem append_inj_of_cut {as bs cs ds : List Char} (ha : ∀ c ∈ as, cut c = false)
    (hb : ∀ c ∈ bs, cut c = false) (hc : ∀ c ∈ cs.head?, cut c = true)
    (hd : ∀ c ∈ ds.head?, cut c = true) (h : as ++ cs = bs ++ ds) : as = bs ∧ cs = ds := by
  induction as generalizing bs with
  | nil =>
    cases bs with
    | nil => exact ⟨rfl, h⟩
    | cons b bs =>
      rw [List.nil_append] at h
      have hb' := hb b List.mem_cons_self
      rw [hc b (by simp [h])] at hb'
      cases hb'
  | cons a as ih =>
    obtain ⟨ha', has⟩ := List.forall_mem_cons.1 ha
    cases bs with
    | nil =>
      rw [List.nil_append] at h
      rw [hd a (by simp [← h])] at ha'
      cases ha'
    | cons b bs =>
      obtain ⟨hhead, htail⟩ := List.cons.inj h
      obtain ⟨has, hrest⟩ := ih has (fun c hc => hb c (List.mem_cons_of_mem b hc)) htail
      exact ⟨by rw [hhead, has], hrest⟩

/-! ### Lines -/

/-- A line without the carriage return that may end it. -/
def dropReturn (line : List Char) : List Char :=
  if line.getLast? = some '\r' then line.dropLast else line

/-- The last line counts only when it is not empty, and keeps its carriage return. -/
def trimLines : List (List Char) → List (List Char)
  | [] => []
  | [last] => if last.isEmpty then [] else [last]
  | line :: rest => dropReturn line :: trimLines rest

/-- The lines of a text: a line feed ends a line, and a carriage return before it belongs to the
line end. -/
def lines (cs : List Char) : List (List Char) := trimLines (splitOn (· == '\n') cs)

end DateFields.Text
