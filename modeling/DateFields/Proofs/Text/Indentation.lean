import DateFields.Text.Quoted
import DateFields.Text.Split
import DateFields.Text.Word
import Mathlib.Data.List.Basic

/-!
# Indentation

* `indented` — a text with four blanks in front of each of its lines;
* `deeper` — a text with four blanks behind each of its line feeds, which is how the lines inside a
  text move when its first line does; it goes through texts put together (`deeper_append`,
  `deeper_intercalate`) and leaves a text of one line as it is (`deeper_eq_self`);
* `indented_append` — a text, a line feed, and what comes behind it.
-/

namespace DateFields.Text

/-! ### Lines -/

/-- The lines of a text, each with the line feed that ends it.  What stands behind the last line feed
is a line when there is something. -/
def endedLines : List Char → List (List Char)
  | [] => []
  | c :: cs =>
    if c = '\n' then [c] :: endedLines cs
    else match endedLines cs with
      | [] => [[c]]
      | l :: ls => (c :: l) :: ls

/-- Four blanks. -/
def blanks : List Char := [' ', ' ', ' ', ' ']

/-- A text with four blanks in front of each of its lines. -/
def indented (s : String) : String := String.ofList ((endedLines s.toList).flatMap (blanks ++ ·))

/-- A text with four blanks behind each of its line feeds. -/
def deeper (s : String) : String :=
  String.ofList (s.toList.flatMap fun c => if c = '\n' then c :: blanks else [c])

/-- The text has no line feed in it. -/
def SingleLine (s : String) : Prop := '\n' ∉ s.toList

variable {s t : String} {texts : List String}

/-! ### Texts of one line -/

instance (s : String) : Decidable (SingleLine s) := inferInstanceAs (Decidable ¬_)

theorem SingleLine.append (h : SingleLine s) (h' : SingleLine t) : SingleLine (s ++ t) := by
  simp_all [SingleLine]

theorem singleLine_intercalate {between : String} (hbetween : SingleLine between)
    (h : ∀ s ∈ texts, SingleLine s) : SingleLine (between.intercalate texts) := by
  induction texts with
  | nil => exact List.not_mem_nil
  | cons s texts ih =>
    obtain ⟨hs, htexts⟩ := List.forall_mem_cons.1 h
    cases texts with
    | nil => simpa using hs
    | cons t texts =>
      rw [String.intercalate_cons_cons]
      exact (hs.append hbetween).append (ih htexts)

theorem singleLine_of_isIdentifier (h : isIdentifier s = true) : SingleLine s := by
  intro hmem
  have hname := isNameChar_of_isIdentifier h hmem
  revert hname
  decide

/-- Nothing in a quoted text is a line feed, for the line feed is escaped. -/
theorem singleLine_quote (s : String) : SingleLine (quote s) := by
  have hdigit : ∀ n < 16, '\n' ≠ Nat.digitChar n := by decide
  have hescape : ∀ c, '\n' ∉ escapeChar c := by
    intro c
    unfold escapeChar
    split_ifs with _ _ _ _ hfeed _ _ hcontrol
    iterate 7 · decide
    · simp [hdigit (c.toNat / 16) (by omega), hdigit (c.toNat % 16) (by omega)]
    · simpa [eq_comm] using hfeed
  simp [SingleLine, quote, escapeChars, hescape]

theorem singleLine_of_mem_lines {cs line : List Char} (h : line ∈ lines cs) : '\n' ∉ line := by
  have htrim : ∀ ls : List (List Char), (∀ l ∈ ls, '\n' ∉ l) → ∀ l ∈ trimLines ls, '\n' ∉ l := by
    intro ls
    fun_induction trimLines ls with
    | case1 => simp
    | case2 last hempty => simp
    | case3 last hempty => simp
    | case4 line rest hrest ih =>
      intro hall l hl
      obtain ⟨hline, hall⟩ := List.forall_mem_cons.1 hall
      rcases List.mem_cons.1 hl with rfl | hl
      · unfold dropReturn
        split_ifs
        · exact fun hmem => hline (List.dropLast_subset line hmem)
        · exact hline
      · exact ih hall l hl
  refine htrim _ (fun l hl hmem => ?_) line h
  simpa using not_cut_of_mem_splitOn hl _ hmem

/-! ### Line feeds -/

@[simp] theorem deeper_empty : deeper "" = "" := rfl

@[simp] theorem deeper_append (s t : String) : deeper (s ++ t) = deeper s ++ deeper t := by
  simp [deeper]

theorem deeper_eq_self (h : SingleLine s) : deeper s = s := by
  have hself : ∀ cs : List Char, '\n' ∉ cs →
      cs.flatMap (fun c => if c = '\n' then c :: blanks else [c]) = cs := by
    intro cs hcs
    induction cs with
    | nil => rfl
    | cons c cs ih =>
      obtain ⟨hc, hcs⟩ := not_or.1 (mt List.mem_cons.2 hcs)
      rw [List.flatMap_cons, ih hcs, if_neg (Ne.symm hc), List.singleton_append]
  rw [deeper, hself _ h, String.ofList_toList]

theorem deeper_intercalate (between : String) (texts : List String) :
    deeper (between.intercalate texts) = (deeper between).intercalate (texts.map deeper) := by
  induction texts with
  | nil => simp
  | cons s texts ih =>
    cases texts with
    | nil => simp
    | cons t texts =>
      rw [String.intercalate_cons_cons, deeper_append, deeper_append, ih, List.map_cons,
        List.map_cons, List.map_cons, String.intercalate_cons_cons]

/-- A text up to a line feed is indented by putting its first line behind blanks and moving the lines
inside of it. -/
theorem indented_append (s rest : String) :
    indented (s ++ "\n" ++ rest) = String.ofList blanks ++ deeper s ++ "\n" ++ indented rest := by
  have key : ∀ cs ds : List Char, (endedLines (cs ++ '\n' :: ds)).flatMap (blanks ++ ·) =
      blanks ++ (cs.flatMap fun c => if c = '\n' then c :: blanks else [c]) ++
        '\n' :: (endedLines ds).flatMap (blanks ++ ·) := by
    intro cs ds
    induction cs with
    | nil => simp [endedLines]
    | cons c cs ih =>
      rw [List.cons_append, endedLines]
      split_ifs with hc
      · rw [List.flatMap_cons, ih]
        simp [hc]
      · -- the line that `c` begins goes on with the first line of the rest
        cases hlines : endedLines (cs ++ '\n' :: ds) with
        | nil => simp [hlines, blanks] at ih
        | cons l ls =>
          rw [hlines, List.flatMap_cons, List.append_assoc, List.append_assoc] at ih
          have hrest := List.append_cancel_left ih
          simp [hc, hrest]
  apply String.toList_inj.1
  simp [indented, deeper, key, String.toList_append]

end DateFields.Text
