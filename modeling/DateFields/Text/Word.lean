import DateFields.Text.Alphabetic
import DateFields.Text.Numeric
import DateFields.Text.Split

/-!
# Identifiers and words

* `isIdentifier` — a text that can stand as a plain name: a letter, `_` or `$`, then letters,
  digits, `_` and `$`;
* `identifierWords` — the identifiers among the maximal runs of name characters of a text;
* `freshName` — the least numbered name that a list of taken names leaves free;
* `isBlank` — a text of white space only.
-/

namespace DateFields.Text

/-! ### Names -/

/-- A character that may start a name. -/
def isNameStart (c : Char) : Bool := c == '_' || c == '$' || isAlphabetic c

/-- A character that may continue a name. -/
def isNameChar (c : Char) : Bool := isNameStart c || isNumeric c

theorem isNameChar_of_isNameStart {c : Char} (h : isNameStart c = true) : isNameChar c = true := by
  simp [isNameChar, h]

theorem isNameChar_of_isDigit {c : Char} (h : c.isDigit = true) : isNameChar c = true := by
  have hlt : c.toNat < 0x80 := by
    simp only [Char.isDigit, Bool.and_eq_true, decide_eq_true_eq] at h
    exact Nat.lt_of_le_of_lt (UInt32.le_iff_toNat_le.1 h.2) (by decide)
  rw [isNameChar, isNumeric_of_lt hlt, h, Bool.or_true]

/-- A nonempty run of name characters that does not start with a digit. -/
def isIdentifierChars : List Char → Bool
  | [] => false
  | c :: cs => isNameStart c && cs.all isNameChar

/-- A text that can stand as a plain name. -/
def isIdentifier (s : String) : Bool := isIdentifierChars s.toList

theorem all_isNameChar_of_isIdentifierChars {cs : List Char} (h : isIdentifierChars cs = true) :
    cs.all isNameChar = true := by
  cases cs with
  | nil => rfl
  | cons c cs =>
    simp only [isIdentifierChars, Bool.and_eq_true] at h
    simpa [isNameChar_of_isNameStart h.1] using h.2

theorem isNameChar_of_isIdentifier {s : String} (h : isIdentifier s = true) {c : Char}
    (hc : c ∈ s.toList) : isNameChar c = true :=
  List.all_eq_true.1 (all_isNameChar_of_isIdentifierChars h) c hc

/-- A text with another character in it is no identifier. -/
theorem not_isIdentifier_of_mem {s : String} {c : Char} (hc : c ∈ s.toList)
    (hname : isNameChar c = false) : isIdentifier s = false := by
  rw [← Bool.not_eq_true]
  intro h
  rw [isNameChar_of_isIdentifier h hc] at hname
  cases hname

/-! ### Words -/

/-- The pieces of a text, cut at every character that is no name character, that are identifiers.
A piece that starts with a digit is no word, and neither is its tail. -/
def identifierWords (text : String) : List String :=
  ((splitOn (fun c => !isNameChar c) text.toList).filter isIdentifierChars).map String.ofList

/-- An identifier is its own and only word. -/
theorem identifierWords_of_isIdentifier {s : String} (h : isIdentifier s = true) :
    identifierWords s = [s] := by
  have h' : isIdentifierChars s.toList = true := h
  have hs : splitOn (fun c => !isNameChar c) s.toList = [s.toList] :=
    splitOn_of_all fun c hc => by
      simpa using List.all_eq_true.1 (all_isNameChar_of_isIdentifierChars h') c hc
  simp [identifierWords, hs, h']

/-! ### Fresh names -/

/-- The `n`-th numbered name with a given stem. -/
def numbered (stem : String) (n : Nat) : String := stem ++ "_" ++ n.repr

/-- The first of `stem_1`, `stem_2`, … that is not taken.  One more candidate than there are taken
names is enough. -/
def freshName (stem : String) (taken : List String) : String :=
  let candidates := (List.range' 1 (taken.length + 1)).map (numbered stem)
  (candidates.find? fun name => !taken.contains name).getD stem

/-! ### White space -/

/-- The Unicode property `White_Space`. -/
def isSpace (c : Char) : Bool :=
  inRanges [(0x09, 0x0D), (0x20, 0x20), (0x85, 0x85), (0xA0, 0xA0), (0x1680, 0x1680),
    (0x2000, 0x200A), (0x2028, 0x2029), (0x202F, 0x202F), (0x205F, 0x205F), (0x3000, 0x3000)]
    c.toNat

/-- A text with nothing but white space in it. -/
def isBlank (s : String) : Bool := s.toList.all isSpace

end DateFields.Text
