/-
# Decimal numbers

A `Decimal` is a coefficient and a power of ten. It stands between doubles and
text: a literal is read into a decimal, and the decimal is rounded to the
nearest double; a double is turned into one of the decimals near it, and that
decimal is laid out as text.

Key definitions: `Decimal`, `decimalLength`, `Binary64.ofDecimal`,
`Magnitude.exactDecimal`.
Key theorems: `lt_pow_decimalLength`, `pow_le_of_lt_decimalLength`.
-/
import RegisterMachine.Binary64.Nearest

namespace RegisterMachine

/-- The number `coefficient * 10 ^ exponent`. -/
@[ext]
structure Decimal where
  coefficient : Nat
  exponent : Int
  deriving DecidableEq

/-- The number of decimal digits of a natural number; zero has one. -/
def decimalLength (n : Nat) : Nat := (Nat.toDigits 10 n).length

theorem lt_pow_decimalLength (n : Nat) : n < 10 ^ decimalLength n :=
  (Nat.length_toDigits_le_iff (by omega) (Nat.length_toDigits_pos ..)).1 (Nat.le_refl _)

theorem pow_le_of_lt_decimalLength {n k : Nat} (hk : 0 < k) (h : k < decimalLength n) :
    10 ^ k ≤ n := by
  have := Nat.length_toDigits_le_iff (b := 10) (n := n) (k := k) (by omega) hk
  unfold decimalLength at h
  omega

namespace Binary64

/-- The value of a decimal as a quotient of two numbers of quanta. -/
def decimalRatio (d : Decimal) : Nat × Nat :=
  (d.coefficient * 10 ^ d.exponent.toNat * unit, 10 ^ (-d.exponent).toNat)

/-- The double nearest to a decimal, with the given sign. Decimals of more than
three hundred and ten digits before the point overflow, and those that start
more than three hundred and thirty places behind it vanish; the power of ten
of the others is small enough to be written out. -/
def ofDecimal (negative : Bool) (d : Decimal) : Binary64 :=
  let top := decimalLength d.coefficient + d.exponent
  if d.coefficient = 0 ∨ top < -330 then .finite negative .zero
  else if 310 < top then .infinite negative
  else nearest negative (decimalRatio d).1 (decimalRatio d).2

end Binary64

/-- The value of a magnitude, digit for digit: `2 ^ (-1074)` is `5 ^ 1074 * 10 ^ (-1074)`. -/
def Magnitude.exactDecimal (m : Magnitude) : Decimal :=
  ⟨m.quanta * 5 ^ 1074, -1074⟩

end RegisterMachine
