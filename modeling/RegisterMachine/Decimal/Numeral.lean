/-
# Decimal numerals

A numeral is what is written of a number without sign: digits before and behind
the point, and a power of ten. Every reader of numbers takes a text apart into
a numeral first, and then decides which value it gives it; `Numeral.value` is
the exact one.

Key definitions: `splitSign`, `Numeral`, `Numeral.read?`, `Numeral.value`.
-/
import RegisterMachine.Decimal.Layout

namespace RegisterMachine

/-- Whether a minus sign stands in front, and what follows the sign. -/
def splitSign : List Char → Bool × List Char
  | [] => (false, [])
  | c :: cs => if c = '-' then (true, cs) else if c = '+' then (false, cs) else (false, c :: cs)

/-- The power of ten behind the digits; none written means zero. -/
def readExponent? : List Char → Option Int
  | [] => some 0
  | c :: cs =>
    let (negative, digits) := splitSign cs
    if (c = 'e' ∨ c = 'E') ∧ digits ≠ [] ∧ digits.all Char.isDigit then
      some (signed negative (ofDigits digits))
    else none

/-- The digits behind a point, and what follows them. -/
def splitFraction : List Char → List Char × List Char
  | [] => ([], [])
  | c :: cs =>
    if c = '.' then (cs.takeWhile Char.isDigit, cs.dropWhile Char.isDigit) else ([], c :: cs)

/-- The digits before the point, those behind it, and the power of ten. -/
structure Numeral where
  whole : List Char
  fraction : List Char
  exponent : Int
  deriving DecidableEq

namespace Numeral

/-- The numeral that a text is: digits with or without a point, one at least,
and a power of ten or none. -/
def read? (cs : List Char) : Option Numeral :=
  let whole := cs.takeWhile Char.isDigit
  let (fraction, rest) := splitFraction (cs.dropWhile Char.isDigit)
  if whole ++ fraction = [] then none
  else (readExponent? rest).map fun exponent => ⟨whole, fraction, exponent⟩

/-- The exact value. -/
def value (n : Numeral) : Decimal :=
  ⟨ofDigits (n.whole ++ n.fraction), n.exponent - n.fraction.length⟩

end Numeral

end RegisterMachine
