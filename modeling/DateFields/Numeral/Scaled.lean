import DateFields.Numeral.Basic

/-!
# Numerals read by machine words

A quick reader keeps no digits.  It gathers the leading digits of a numeral in a word of 64 bits,
only counts the others, and multiplies the word by a power of ten, both first rounded to doubles.
Near the end of the range this loses numbers that would themselves round to a finite double, and
keeps others.

* `nearestDouble` — the double nearest to a natural number, the range taken as unbounded;
* `Numeral.Scaled` — a word and a power of ten;
* `Numeral.toScaled` — what a numeral is gathered as;
* `Numeral.Scaled.isFinite` — the product is a finite double.
-/

namespace DateFields

/-- The double nearest to a natural number, of two the one whose last bit is zero. -/
def nearestDouble (n : Nat) : Nat :=
  let unit := 1 <<< (n.log2 - 52)
  let rest := n % unit
  if 2 * rest < unit || (2 * rest = unit && n / unit % 2 = 0) then n / unit * unit
  else (n / unit + 1) * unit

namespace Numeral

/-- A word and the power of ten it is to be multiplied by. -/
structure Scaled where
  /-- The word. -/
  significand : Nat
  /-- The power of ten. -/
  exponent : Int
  deriving DecidableEq, Repr

/-- Digits appended to a word for as long as it stays below the size of words, and the digits left
over. -/
def gather (word : Nat) : List Char → Nat × List Char
  | [] => (word, [])
  | c :: cs =>
    let next := 10 * word + (c.toNat - '0'.toNat)
    if next < UInt64.size then gather next cs else (word, c :: cs)

/-- The leading digits before the point, then those behind it, as far as a word holds them. -/
def toScaled (n : Numeral) : Scaled :=
  let fraction := n.fraction.getD []
  let (word, dropped) := gather 0 n.whole
  let (word, unread) := gather word fraction
  ⟨word, n.exponent.getD 0 + (dropped.length + unread.length : Nat) - fraction.length⟩

/-- The product is a finite double: of a zero always, and else the power of ten must be a double
and the product of both must not reach the end of the range. -/
def Scaled.isFinite (x : Scaled) : Bool :=
  if x.significand = 0 || x.exponent < 0 then true
  else if x.exponent > 308 then false
  else nearestDouble x.significand * nearestDouble (Nat.pow 10 x.exponent.toNat) < finiteBound

end Numeral

end DateFields
