/-
# Laying out decimals as text

A decimal is written positionally, all its digits around a point, or
scientifically, one digit before the point and a power of ten behind. Where a
format changes from one to the other is that format's decision; here are the
two forms and their digits.

Key definitions: `Decimal.digits`, `Decimal.positional`, `Decimal.scientific`.
Key theorems: `ofDigits_digitsOf`.
-/
import RegisterMachine.Decimal.Basic

namespace RegisterMachine

/-- The decimal digits of a natural number. -/
def digitsOf (n : Nat) : List Char := Nat.toDigits 10 n

/-- The natural number written by some decimal digits. -/
def ofDigits (cs : List Char) : Nat := Nat.ofDigitChars 10 cs 0

theorem ofDigits_digitsOf (n : Nat) : ofDigits (digitsOf n) = n :=
  Nat.ofDigitChars_toDigits (by omega) (by omega)

/-- The digits of an integer after its sign, which is written when negative. -/
def signedDigits (n : Int) : List Char :=
  if n < 0 then '-' :: digitsOf n.natAbs else digitsOf n.natAbs

namespace Decimal

/-- The digits of the coefficient. -/
def digits (d : Decimal) : List Char := digitsOf d.coefficient

/-- How many digits stand before the point, zero or less if the first digit
stands behind it. -/
def pointPlace (d : Decimal) : Int := d.digits.length + d.exponent

/-- All digits in their places. A whole number is followed by `tail`. -/
def positional (tail : List Char) (d : Decimal) : List Char :=
  if 0 ≤ d.exponent then
    d.digits ++ List.replicate d.exponent.toNat '0' ++ tail
  else if 0 < d.pointPlace then
    d.digits.take d.pointPlace.toNat ++ '.' :: d.digits.drop d.pointPlace.toNat
  else
    '0' :: '.' :: (List.replicate (-d.pointPlace).toNat '0' ++ d.digits)

/-- One digit, the others behind a point if there are others, and the power of
ten with its sign. -/
def scientific (d : Decimal) : List Char :=
  let power := d.pointPlace - 1
  let fraction := if d.digits.length = 1 then [] else '.' :: d.digits.drop 1
  let sign := if power < 0 then '-' else '+'
  d.digits.take 1 ++ fraction ++ 'e' :: sign :: digitsOf power.natAbs

end Decimal

end RegisterMachine
