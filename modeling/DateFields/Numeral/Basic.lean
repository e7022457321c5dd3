/-!
# Numbers as they are written

* `Numeral` — a decimal number with its digits, so that a document can be read without rounding;
* `Numeral.natural?` — the natural number that is written with digits alone;
* `Numeral.isFinite` — the number does not exceed the range of doubles.
-/

namespace DateFields

/-- A number as it is written. -/
structure Numeral where
  /-- A minus sign stands before the number. -/
  negative : Bool
  /-- The digits before the point. -/
  whole : List Char
  /-- The digits behind the point, if there is one. -/
  fraction : Option (List Char)
  /-- The power of ten, if one is written. -/
  exponent : Option Int
  deriving DecidableEq, Repr

namespace Numeral

/-- The value of a run of decimal digits. -/
def digitsValue (cs : List Char) : Nat :=
  cs.foldl (fun n c => 10 * n + (c.toNat - '0'.toNat)) 0

/-- The numeral of a natural number. -/
def ofNat (n : Nat) : Numeral := ⟨false, n.repr.toList, none, none⟩

/-- The natural number a numeral is written as: no sign, fraction or exponent. -/
def natural? (n : Numeral) : Option Nat :=
  if n.negative || n.fraction.isSome || n.exponent.isSome then none
  else some (digitsValue n.whole)

/-- The least natural number that rounds to no finite double. -/
def finiteBound : Nat := 1 <<< 1024 - 1 <<< 970

/-- The number rounds to a finite double. -/
def isFinite (n : Numeral) : Bool :=
  let fraction := n.fraction.getD []
  let digits := digitsValue (n.whole ++ fraction)
  let shift := n.exponent.getD 0 - fraction.length
  -- beyond these powers of ten the digits decide nothing
  if digits = 0 || shift + (n.whole ++ fraction).length < 300 then true
  else if shift > 400 then false
  else if shift ≥ 0 then digits * Nat.pow 10 shift.toNat < finiteBound
  else digits < finiteBound * Nat.pow 10 (-shift).toNat

/-- The spelling of a number. -/
def render (n : Numeral) : String :=
  (if n.negative then "-" else "") ++ String.ofList n.whole ++
    (match n.fraction with
      | none => ""
      | some ds => "." ++ String.ofList ds) ++
    match n.exponent with
      | none => ""
      | some e => "e" ++ e.repr

end Numeral

end DateFields
