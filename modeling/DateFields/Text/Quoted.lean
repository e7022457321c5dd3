/-!
# Quoted text

String literals as they stand in JSON and in the emitted program.

* `quote` — a text between quotation marks; the quotation mark, the backslash and the control
  characters below U+0020 are escaped, every other character stands for itself;
* `escapeChar_ne_nil` — no character vanishes.
-/

namespace DateFields.Text

/-- The spelling of one character inside a quoted text. -/
def escapeChar (c : Char) : List Char :=
  if c = '"' then ['\\', '"']
  else if c = '\\' then ['\\', '\\']
  else if c = '\x08' then ['\\', 'b']
  else if c = '\t' then ['\\', 't']
  else if c = '\n' then ['\\', 'n']
  else if c = '\x0c' then ['\\', 'f']
  else if c = '\r' then ['\\', 'r']
  else if c.toNat < 0x20 then
    ['\\', 'u', '0', '0', Nat.digitChar (c.toNat / 16), Nat.digitChar (c.toNat % 16)]
  else [c]

theorem escapeChar_ne_nil (c : Char) : escapeChar c ≠ [] := by
  unfold escapeChar
  repeat' split
  all_goals simp

/-- A text without quotation marks around it, every character in its escaped spelling. -/
def escapeChars (cs : List Char) : List Char := cs.flatMap escapeChar

/-- A quoted text. -/
def quote (s : String) : String := "\"" ++ String.ofList (escapeChars s.toList) ++ "\""

end DateFields.Text
