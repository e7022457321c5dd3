import DateFields.FieldPath
import DateFields.Json.Fields
import DateFields.Node.Printer
import DateFields.Proofs.Json.Loosened
import Mathlib.Data.List.Forall2

/-!
# Field paths as literals

The field paths of a type stand in the program as a list of lists of strings, and that text is a JSON
document.

* `Json.readString_escapeChars`: the reader undoes every escape of a quoted text;
* `Json.Spells`: a text is read as a value, whatever follows it; quoted texts spell strings
  (`spells_quote`) and bracketed ones spell lists (`spells_bracketed`);
* `FieldPaths.text_spec`: both ways to write field paths give one text, it is read back as these
  paths, and other paths have another text.
-/

namespace DateFields

open Text

namespace Json

/-! ### Quoted texts -/

variable {n d : Nat} {c : Char} {cs rest : List Char}

theorem hexDigit?_digitChar (h : d < 16) : hexDigit? (Nat.digitChar d) = some d := by
  revert d
  decide

theorem hexUnit?_digitChars (h : n < 256) :
    hexUnit? '0' '0' (Nat.digitChar (n / 16)) (Nat.digitChar (n % 16)) = some n := by
  have hzero : hexDigit? '0' = some 0 := rfl
  rw [hexUnit?, hzero, hexDigit?_digitChar (by omega), hexDigit?_digitChar (by omega)]
  change some ((0 * 16 + 0) * 256 + (n / 16 * 16 + n % 16)) = some n
  congr 1
  omega

theorem readString_escape {escape : List Char} (h : readEscape escape = some (.char c, rest)) :
    readString (n + 1) ('\\' :: escape) =
      (readString n rest).map fun r => (r.1.map (c :: ·), r.2) := by
  rw [readString, h, Option.bind_eq_bind, Option.bind_some]
  dsimp only
  cases readString n rest <;> rfl

theorem readEscape_letter {e : Char} (he : e ≠ 'u') (h : simpleEscape? e = some c) :
    readEscape (e :: rest) = some (.char c, rest) := by
  rw [readEscape]
  · rw [h]
    rfl
  · rintro _ _ _ _ _ rfl
    exact absurd rfl he

theorem readEscape_unit (h : c.toNat < 0x20) :
    readEscape ('u' :: '0' :: '0' :: Nat.digitChar (c.toNat / 16) ::
      Nat.digitChar (c.toNat % 16) :: rest) = some (.char c, rest) := by
  have hplain : ¬0xD800 ≤ c.toNat := by omega
  rw [readEscape, hexUnit?_digitChars (by omega)]
  simp [hplain, Char.ofNat_toNat]

/-- A character that stands for itself. -/
theorem readString_plain (hquote : c ≠ '"') (hslash : c ≠ '\\') (h : ¬c.toNat < 0x20) :
    readString (n + 1) (c :: rest) =
      (readString n rest).map fun r => (r.1.map (c :: ·), r.2) := by
  rw [readString]
  · rw [if_neg h]
    cases readString n rest <;> rfl
  · exact hquote
  · exact hslash

/-- A character is read back from its spelling in one step. -/
theorem readString_escapeChar (n : Nat) (c : Char) (rest : List Char) :
    readString (n + 1) (escapeChar c ++ rest) =
      (readString n rest).map fun r => (r.1.map (c :: ·), r.2) := by
  unfold escapeChar
  split_ifs with hquote hslash hback htab hline hpage hreturn hcontrol
  · subst hquote
    exact readString_escape (readEscape_letter (by decide) rfl)
  · subst hslash
    exact readString_escape (readEscape_letter (by decide) rfl)
  · subst hback
    exact readString_escape (readEscape_letter (by decide) rfl)
  · subst htab
    exact readString_escape (readEscape_letter (by decide) rfl)
  · subst hline
    exact readString_escape (readEscape_letter (by decide) rfl)
  · subst hpage
    exact readString_escape (readEscape_letter (by decide) rfl)
  · subst hreturn
    exact readString_escape (readEscape_letter (by decide) rfl)
  · exact readString_escape (readEscape_unit hcontrol)
  · exact readString_plain hquote hslash hcontrol

/-- A text is read back from its spelling. -/
theorem readString_escapeChars (h : cs.length < n) :
    readString n (escapeChars cs ++ '"' :: rest) = some (some cs, rest) := by
  induction cs generalizing n with
  | nil =>
    obtain ⟨n, rfl⟩ := Nat.exists_eq_add_one.2 h
    rfl
  | cons c cs ih =>
    obtain ⟨n, rfl⟩ := Nat.exists_eq_add_one.2 (Nat.zero_lt_of_lt h)
    have hspelled : escapeChars (c :: cs) = escapeChar c ++ escapeChars cs := rfl
    rw [hspelled, List.append_assoc, readString_escapeChar, ih (Nat.lt_of_succ_lt_succ h)]
    rfl

theorem length_le_escapeChars (cs : List Char) : cs.length ≤ (escapeChars cs).length := by
  induction cs with
  | nil => exact Nat.le_refl 0
  | cons c cs ih =>
    have hc : 0 < (escapeChar c).length := List.length_pos_iff.2 (escapeChar_ne_nil c)
    have hspelled : escapeChars (c :: cs) = escapeChar c ++ escapeChars cs := rfl
    rw [hspelled, List.length_append, List.length_cons]
    omega

/-! ### Texts of values -/

/-- The text begins with a quotation mark or a bracket. -/
def Opens (text : List Char) : Prop := ∃ tail, text = '"' :: tail ∨ text = '[' :: tail

/-- The text is read as the value, and what follows it is left. -/
structure Spells (text : List Char) (v : Json) : Prop where
  /-- It begins as a string or a list does. -/
  opens : Opens text
  /-- As many steps as it has characters are enough. -/
  reads : ∀ n rest, text.length ≤ n → readValue n (text ++ rest) = some (v, rest)

variable {text : List Char} {texts : List (List Char)} {v : Json} {vs : List Json}

/-- A blank in front of a value is skipped. -/
theorem readValue_blank (n : Nat) (cs : List Char) : readValue n (' ' :: cs) = readValue n cs := by
  cases n with
  | zero => rfl
  | succ n =>
    have hskip : skipBlanks (' ' :: cs) = skipBlanks cs := rfl
    rw [readValue, readValue, hskip]

theorem readItems_blank (n : Nat) (cs : List Char) : readItems n (' ' :: cs) = readItems n cs := by
  cases n with
  | zero => rfl
  | succ n => rw [readItems, readItems, readValue_blank]

/-- A quoted text spells a string. -/
theorem spells_quote (s : String) : Spells (quote s).toList (.string s) := by
  have hquote : (quote s).toList = '"' :: (escapeChars s.toList ++ ['"']) := by simp [quote]
  refine ⟨⟨_, .inl hquote⟩, fun n rest hn => ?_⟩
  rw [hquote, List.length_cons, List.length_append, List.length_singleton] at hn
  have hlength := length_le_escapeChars s.toList
  obtain ⟨n, rfl⟩ := Nat.exists_eq_add_one.2 (Nat.zero_lt_of_lt hn)
  have hstring : readString n (escapeChars s.toList ++ '"' :: rest) = some (some s.toList, rest) :=
    readString_escapeChars (by omega)
  have hvalue : readValue (n + 1) ('"' :: (escapeChars s.toList ++ '"' :: rest)) =
      (readString n (escapeChars s.toList ++ '"' :: rest)).map
        fun r => (ofString? r.1, r.2) := rfl
  rw [hquote, List.cons_append, List.append_assoc, List.singleton_append, hvalue, hstring,
    Option.map_some, ofString?, String.ofList_toList]

/-- The items of a list are read up to the bracket that closes it. -/
theorem readItems_intercalate (h : Spells text v) (hall : List.Forall₂ Spells texts vs) {n : Nat}
    (hn : ([',', ' '].intercalate (text :: texts)).length < n) (rest : List Char) :
    readItems n ([',', ' '].intercalate (text :: texts) ++ ']' :: rest) = some (v :: vs, rest) := by
  obtain ⟨n, rfl⟩ := Nat.exists_eq_add_one.2 (Nat.zero_lt_of_lt hn)
  induction hall generalizing text v n with
  | nil =>
    rw [List.intercalate_singleton] at hn ⊢
    rw [readItems, h.reads n _ (by omega)]
    rfl
  | @cons text' v' texts vs h' hall ih =>
    rw [List.intercalate_cons_cons] at hn ⊢
    simp only [List.length_append, List.length_cons, List.length_nil] at hn
    obtain ⟨n, rfl⟩ := Nat.exists_eq_add_one.2 (show 0 < n by omega)
    have hitems := ih h' n (by omega)
    rw [List.append_assoc, List.append_assoc, readItems, h.reads _ _ (by omega)]
    have hrest : readItems (n + 1) (' ' :: ([',', ' '].intercalate (text' :: texts) ++ ']' :: rest)) =
        some (v' :: vs, rest) := by
      rw [readItems_blank, hitems]
    exact congrArg (fun r => Option.bind r fun r => some (v :: r.1, r.2)) hrest

theorem opens_intercalate (h : Opens text) (texts : List (List Char)) (rest : List Char) :
    Opens ([',', ' '].intercalate (text :: texts) ++ rest) := by
  obtain ⟨more, hmore⟩ : ∃ more, [',', ' '].intercalate (text :: texts) ++ rest = text ++ more := by
    cases texts with
    | nil => exact ⟨rest, by rw [List.intercalate_singleton]⟩
    | cons => exact ⟨_, by rw [List.intercalate_cons_cons, List.append_assoc, List.append_assoc]⟩
  obtain ⟨tail, rfl | rfl⟩ := h
  · exact ⟨_, .inl hmore⟩
  · exact ⟨_, .inr hmore⟩

theorem readValue_list (h : Opens cs) : readValue (n + 1) ('[' :: cs) =
    (readItems n cs).map fun r => (.array r.1, r.2) := by
  obtain ⟨tail, rfl | rfl⟩ := h <;> rfl

/-- Texts between brackets, with commas and blanks between them, spell the list of what each of them
spells. -/
theorem spells_bracketed {texts : List String}
    (h : List.Forall₂ (fun s v => Spells s.toList v) texts vs) :
    Spells (bracketed texts).toList (.array vs) := by
  have hbracketed : (bracketed texts).toList =
      '[' :: ([',', ' '].intercalate (texts.map String.toList) ++ [']']) := by
    simp [bracketed, String.toList_intercalate]
  refine ⟨⟨_, .inr hbracketed⟩, fun n rest hn => ?_⟩
  rw [hbracketed, List.length_cons, List.length_append, List.length_singleton] at hn
  obtain ⟨n, rfl⟩ := Nat.exists_eq_add_one.2 (Nat.zero_lt_of_lt hn)
  rw [hbracketed, List.cons_append, List.append_assoc, List.singleton_append]
  cases h with
  | nil => rfl
  | @cons s v texts vs h hall =>
    have hall' : List.Forall₂ Spells (texts.map String.toList) vs :=
      List.forall₂_map_left_iff.2 hall
    rw [List.map_cons] at hn ⊢
    rw [readValue_list (opens_intercalate h.opens _ _),
      readItems_intercalate h hall' (Nat.le_of_succ_le_succ hn) rest, Option.map_some]

theorem list?_map {α : Type} {encode : α → Json} {decode : Json → Option α}
    (h : ∀ a, decode (encode a) = some a) (as : List α) :
    list? decode (.array (as.map encode)) = some as := by
  rw [list?]
  induction as with
  | nil => rfl
  | cons a as ih =>
    rw [List.map_cons, List.mapM_cons, h, ih]
    rfl

/-- A text that spells a value is a document. -/
theorem Spells.read? {s : String} (h : Spells s.toList v) : read? s = some v := by
  have hread := h.reads (2 * s.toList.length + 2) [] (by omega)
  rw [List.append_nil] at hread
  rw [Json.read?, hread]
  rfl

end Json

/-! ### Field paths -/

theorem FieldPath.spells_text (p : FieldPath) : Json.Spells p.text.toList (Json.ofStrings p) :=
  Json.spells_bracketed (List.forall₂_map_left_iff.2 (List.forall₂_map_right_iff.2
    (List.forall₂_same.2 fun s _ => Json.spells_quote s)))

theorem FieldPaths.spells_text (ps : FieldPaths) :
    Json.Spells ps.text.toList (.array (ps.map Json.ofStrings)) :=
  Json.spells_bracketed (List.forall₂_map_left_iff.2 (List.forall₂_map_right_iff.2
    (List.forall₂_same.2 fun p _ => p.spells_text)))

/-- A list of lists of strings can be held in memory. -/
theorem FieldPaths.fits (ps : FieldPaths) :
    (Json.array (ps.map Json.ofStrings)).fits Json.nestingLimit = true := by
  refine Json.itemsFit_iff.2 (List.forall_mem_map.2 fun p _ => ?_)
  exact Json.itemsFit_iff.2 (List.forall_mem_map.2 fun _ _ => rfl)

/-- Field paths are decoded from the list they are written as. -/
theorem FieldPaths.list?_ofStrings (ps : FieldPaths) :
    Json.list? (Json.list? Json.string?) (.array (ps.map Json.ofStrings)) = some ps := by
  have hstring (s : String) : Json.string? (.string s) = some s := rfl
  have hpath (p : FieldPath) : Json.list? Json.string? (Json.ofStrings p) = some p :=
    Json.list?_map hstring p
  exact Json.list?_map hpath ps

theorem FieldPath.text_literal (p : FieldPath) (depth : Nat) : p.literal.text depth = p.text := by
  have hstring : (Node.text depth ∘ Node.string) = Text.quote := by
    funext s
    rw [Function.comp_apply, Node.text]
  rw [FieldPath.literal, Node.text, Node.texts_eq, List.map_map, hstring]
  rfl

theorem FieldPaths.text_literal (ps : FieldPaths) (depth : Nat) :
    ps.literal.text depth = ps.text := by
  have hpath : (Node.text depth ∘ FieldPath.literal) = FieldPath.text := by
    funext p
    exact p.text_literal depth
  rw [FieldPaths.literal, Node.text, Node.texts_eq, List.map_map, hpath]
  rfl

/-- The expression that field paths are emitted as is printed as their own text, at any depth.  That
text is a JSON document, and decoding it gives exactly these field paths; so other field paths have
another text. -/
theorem FieldPaths.text_spec (ps : FieldPaths) :
    (∀ depth, ps.literal.text depth = ps.text) ∧
      (∃ v, Json.read? ps.text = some v ∧ v.fits Json.nestingLimit = true ∧
        Json.list? (Json.list? Json.string?) v = some ps) ∧
      ∀ qs : FieldPaths, qs.text = ps.text ↔ qs = ps := by
  refine ⟨ps.text_literal, ⟨_, ps.spells_text.read?, ps.fits, ps.list?_ofStrings⟩, fun qs => ?_⟩
  constructor
  · intro htext
    have hread : some (Json.array (qs.map Json.ofStrings)) = some (.array (ps.map Json.ofStrings)) := by
      rw [← qs.spells_text.read?, htext, ps.spells_text.read?]
    have hdecoded := ps.list?_ofStrings
    rw [← Option.some.inj hread, qs.list?_ofStrings] at hdecoded
    exact Option.some.inj hdecoded
  · exact congrArg FieldPaths.text

end DateFields
